import AskMetrics.Proofs.Text.Scan

/-!
# Words in a text

A name of the query language is a run of ASCII letters, digits and underscores. Such a run is a
word: patterns see its edges, and what begins with a keyword and something else than a name
character can begin at a name only if the name is that keyword.
-/
namespace AskMetrics.Text

/-! ## Classes of characters -/

theorem isDigit_iff {c : Char} : c.isDigit = true ↔ 48 ≤ c.toNat ∧ c.toNat ≤ 57 := by
  simp only [Char.isDigit, UInt32.le_iff_toNat_le, ge_iff_le, Bool.and_eq_true, decide_eq_true_eq]
  rfl

theorem isAlpha_iff {c : Char} :
    c.isAlpha = true ↔ (65 ≤ c.toNat ∧ c.toNat ≤ 90) ∨ (97 ≤ c.toNat ∧ c.toNat ≤ 122) := by
  have hclasses : c.isAlpha = (decide ('A'.val ≤ c.val ∧ c.val ≤ 'Z'.val) ||
      (decide ('a'.val ≤ c.val) && decide (c.val ≤ 'z'.val))) := rfl
  simp only [hclasses, UInt32.le_iff_toNat_le, Bool.or_eq_true, Bool.and_eq_true,
    decide_eq_true_eq]
  rfl

theorem isNameChar_iff {c : Char} :
    isNameChar c = true ↔ (48 ≤ c.toNat ∧ c.toNat ≤ 57) ∨ (65 ≤ c.toNat ∧ c.toNat ≤ 90) ∨
      (97 ≤ c.toNat ∧ c.toNat ≤ 122) ∨ c.toNat = 95 := by
  have hunder : c = '_' ↔ c.toNat = 95 := Char.toNat_inj.symm
  simp only [isNameChar, Char.isAlphanum, Bool.or_eq_true, beq_iff_eq, isAlpha_iff, isDigit_iff,
    hunder]
  omega

section
variable {u v : Char}

theorem isIdentChar_eq (u : Char) : isIdentChar u = (isNameChar u || u == ':') := rfl

theorem isNameChar_of_isDigit (h : u.isDigit = true) : isNameChar u = true := by
  rw [isDigit_iff] at h
  rw [isNameChar_iff]
  omega

theorem isNameChar_of_isAlpha (h : u.isAlpha = true) : isNameChar u = true := by
  simp [isNameChar, Char.isAlphanum, h]

theorem isAlpha_of_isDigit (h : u.isDigit = true) : u.isAlpha = false := by
  rw [isDigit_iff] at h
  rw [← Bool.not_eq_true, isAlpha_iff]
  omega

theorem isWord_of_isNameChar (h : isNameChar u = true) : isWord u = true := by
  have hascii : u.toNat < 128 := by
    rw [isNameChar_iff] at h
    omega
  rw [isWord, if_pos hascii, h]

theorem isIdentChar_of_isNameChar (h : isNameChar u = true) : isIdentChar u = true := by
  rw [isIdentChar_eq, h, Bool.true_or]

theorem isBlank_of_isNameChar (h : isNameChar u = true) : isBlank u = false := by
  rw [isNameChar_iff] at h
  simp only [isBlank, Bool.or_eq_false_iff, Bool.and_eq_false_imp, decide_eq_true_eq,
    decide_eq_false_iff_not, beq_eq_false_iff_ne, ne_eq]
  omega

theorem isNameChar_of_isBlank (h : isBlank u = true) : isNameChar u = false := by
  by_contra hname
  simp [isBlank_of_isNameChar (by simpa using hname)] at h

/-- A word does not go on in the blanks after it, or after them. -/
theorem not_nameChar_blanks_append {x a : List Char} (hx : ∀ v ∈ x, isBlank v = true)
    (hu : isNameChar u = false) : ∀ v ∈ (x ++ u :: a).head?, isNameChar v = false := by
  cases x with
  | nil => simpa using hu
  | cons v x => simpa using isNameChar_of_isBlank (hx v (.head _))

theorem ne_of_isNameChar (hu : isNameChar u = true) (hv : isNameChar v = false) : u ≠ v := by
  rintro rfl
  simp [hu] at hv

theorem isWord_of_isDecimal (h : isDecimal u = true) : isWord u = true := by
  have htable : (decimalRanges.all fun r => wordRanges.any fun s =>
      s.1.ble r.1 && r.2.ble s.2) = true := by
    decide +kernel
  unfold isDecimal at h
  unfold isWord
  split_ifs at h ⊢ with hascii
  · exact isNameChar_of_isDigit h
  · obtain ⟨r, hr, hin⟩ := List.any_eq_true.mp h
    obtain ⟨s, hs, hcovers⟩ := List.any_eq_true.mp (List.all_eq_true.mp htable r hr)
    simp only [Bool.and_eq_true, decide_eq_true_eq, Nat.ble_eq] at hin hcovers
    exact List.any_eq_true.mpr ⟨s, hs, by simp; omega⟩

theorem isWord_of_isAlpha (h : u.isAlpha = true) : isWord u = true :=
  isWord_of_isNameChar (isNameChar_of_isAlpha h)

theorem isDecimal_of_isAlpha (h : u.isAlpha = true) : isDecimal u = false := by
  have hascii : u.toNat < 128 := by
    rw [isAlpha_iff] at h
    omega
  rw [isDecimal, if_pos hascii, ← Bool.not_eq_true]
  intro hdigit
  simp [isAlpha_of_isDigit hdigit] at h

theorem isBlank_of_isWord (h : isWord u = true) : isBlank u = false := by
  have htable : ∀ n ∈ [0x85, 0xA0, 0x1680, 0x2000, 0x2001, 0x2002, 0x2003, 0x2004, 0x2005, 0x2006,
      0x2007, 0x2008, 0x2009, 0x200A, 0x2028, 0x2029, 0x202F, 0x205F, 0x3000],
      inRanges wordRanges n = false := by
    decide +kernel
  by_contra hblank
  rw [Bool.not_eq_false] at hblank
  unfold isWord at h
  split_ifs at h with hascii
  · simp [isNameChar_of_isBlank hblank] at h
  · have hmem := htable u.toNat (by
      simp only [isBlank, Bool.or_eq_true, Bool.and_eq_true, decide_eq_true_eq, beq_iff_eq] at hblank
      simp only [List.mem_cons, List.not_mem_nil, or_false]
      omega)
    simp [h] at hmem

/-- A word character is none of some others. -/
theorem ne_of_isWord (hu : isWord u = true) (hv : isWord v = false) : u ≠ v := by
  rintro rfl
  simp [hu] at hv

theorem isDecimal_of_isDigit (h : u.isDigit = true) : isDecimal u = true := by
  have hascii : u.toNat < 128 := by
    rw [isDigit_iff] at h
    omega
  rw [isDecimal, if_pos hascii, h]

end

/-! ## Runs of a class -/

/-- A text begins with one whole run of a class only. -/
theorem eq_of_append_eq_append {p : Char → Bool} {x y a b : List Char} (hx : ∀ u ∈ x, p u = true)
    (hy : ∀ u ∈ y, p u = true) (ha : ∀ u ∈ a.head?, p u = false) (hb : ∀ u ∈ b.head?, p u = false)
    (h : x ++ a = y ++ b) : x = y ∧ a = b := by
  induction x generalizing y with
  | nil =>
    cases y with
    | nil => exact ⟨rfl, by simpa using h⟩
    | cons v y =>
      obtain rfl : a = v :: (y ++ b) := by simpa using h
      simp [hy v (.head _)] at ha
  | cons u x ih =>
    cases y with
    | nil =>
      obtain rfl : u :: (x ++ a) = b := by simpa using h
      simp [hx u (.head _)] at hb
    | cons v y =>
      obtain ⟨rfl, htail⟩ := by simpa using h
      obtain ⟨rfl, rfl⟩ :=
        ih (fun w hw => hx w (.tail _ hw)) (fun w hw => hy w (.tail _ hw)) htail
      exact ⟨rfl, rfl⟩

/-- A text has no `q`, as a class of characters. -/
theorem forall_bne_iff {q : Char} {x : List Char} : (∀ u ∈ x, (u != q) = true) ↔ q ∉ x := by
  constructor
  · intro h hmem
    simpa using h q hmem
  · intro h u hu
    have hne : u ≠ q := ne_of_mem_of_not_mem hu h
    simpa using hne

/-- What lies before the first `q`. -/
theorem eq_of_append_cons_eq {q : Char} {x x' a a' : List Char} (hx : q ∉ x) (hx' : q ∉ x')
    (heq : x ++ q :: a = x' ++ q :: a') : x = x' :=
  (eq_of_append_eq_append (forall_bne_iff.mpr hx) (forall_bne_iff.mpr hx') (by simp) (by simp)
    heq).1

theorem takeWhile_append_eq {p : Char → Bool} {x a : List Char} (hx : ∀ u ∈ x, p u = true)
    (ha : ∀ u ∈ a.head?, p u = false) : (x ++ a).takeWhile p = x := by
  rw [List.takeWhile_append_of_pos hx]
  cases a with
  | nil => simp
  | cons u a => simp [ha u rfl]

theorem dropWhile_append_eq {p : Char → Bool} {x a : List Char} (hx : ∀ u ∈ x, p u = true)
    (ha : ∀ u ∈ a.head?, p u = false) : (x ++ a).dropWhile p = a := by
  rw [List.dropWhile_append_of_pos hx]
  cases a with
  | nil => rfl
  | cons u a => simp [ha u rfl]

/-- Every text begins with a run of a class, perhaps an empty one. -/
theorem exists_run (p : Char → Bool) (s : List Char) :
    ∃ x a, s = x ++ a ∧ (∀ u ∈ x, p u = true) ∧ ∀ u ∈ a.head?, p u = false := by
  refine ⟨s.takeWhile p, s.dropWhile p, List.takeWhile_append_dropWhile.symm,
    fun u hu => List.mem_takeWhile_imp hu, fun u hu => ?_⟩
  have hdrop := List.head?_dropWhile_not p s
  simpa [Option.mem_def.mp hu] using hdrop

/-! ## Edges -/

/-- No word reaches the place after `b`, read backwards: it is empty or ends in something else. -/
def Opens (b : List Char) : Prop := ∀ u ∈ b.head?, isWord u = false

/-- No identifier goes on at the place before `a`. -/
def Ends (a : List Char) : Prop := ∀ u ∈ a.head?, isIdentChar u = false

section
variable {u v : Char} {b a : List Char}

@[simp] theorem opens_nil : Opens [] := by simp [Opens]

@[simp] theorem opens_cons : Opens (u :: b) ↔ isWord u = false := by simp [Opens]

/-- That a place opens a word can be computed. -/
theorem opens_iff_all : Opens b ↔ (b.head?.all fun u => !isWord u) = true := by
  cases b <;> simp

@[simp] theorem ends_nil : Ends [] := by simp [Ends]

@[simp] theorem ends_cons : Ends (u :: a) ↔ isIdentChar u = false := by simp [Ends]

theorem Opens.not_nameChar (h : Opens b) : ∀ u ∈ b.head?, isNameChar u = false := by
  intro u hu
  by_contra hname
  have := isWord_of_isNameChar (by simpa using hname)
  simp [h u hu] at this

theorem Ends.not_nameChar (h : Ends a) : ∀ u ∈ a.head?, isNameChar u = false := by
  intro u hu
  by_contra hname
  have := isIdentChar_of_isNameChar (by simpa using hname)
  simp [h u hu] at this

theorem atEdge_of_opens (hb : Opens b) (hu : isNameChar u = true) :
    Cursor.atEdge ⟨b, u :: a⟩ = true := by
  cases b with
  | nil => simp [Cursor.atEdge, isWord_of_isNameChar hu]
  | cons v b => simp_all [Cursor.atEdge, isWord_of_isNameChar hu]

/-- An edge before a word has no word before it. -/
theorem opens_of_atEdge (h : Cursor.atEdge ⟨b, a⟩ = true) (hu : u ∈ a.head?)
    (hname : isNameChar u = true) : Opens b := by
  intro v hv
  obtain ⟨y, rfl⟩ := List.head?_eq_some_iff.mp hu
  obtain ⟨x, rfl⟩ := List.head?_eq_some_iff.mp hv
  simpa [Cursor.atEdge, isWord_of_isNameChar hname] using h

/-- Behind a word that does not go on there is an edge. -/
theorem atEdge_behind {x : List Char} (hne : x ≠ []) (hx : ∀ u ∈ x, isNameChar u = true)
    (ha : ∀ u ∈ a.head?, isWord u = false) : Cursor.atEdge ⟨x.reverse ++ b, a⟩ = true := by
  obtain ⟨u, y, hy⟩ := List.exists_cons_of_ne_nil (List.reverse_ne_nil_iff.mpr hne)
  have hu : isWord u = true := isWord_of_isNameChar (hx u (List.mem_reverse.mp (by simp [hy])))
  cases a with
  | nil => simp [hy, Cursor.atEdge, hu]
  | cons v a => simp [hy, Cursor.atEdge, hu, ha v rfl]

/-- There is no edge inside a word. -/
theorem not_atEdge_inside (hu : isNameChar u = true) (hv : isNameChar v = true) :
    Cursor.atEdge ⟨u :: b, v :: a⟩ = false := by
  simp [Cursor.atEdge, isWord_of_isNameChar hu, isWord_of_isNameChar hv]

/-- A word does not go on at an edge behind it. -/
theorem not_nameChar_of_atEdge {x : List Char} (hne : x ≠ []) (hx : ∀ u ∈ x, isNameChar u = true)
    (h : Cursor.atEdge ⟨x.reverse ++ b, a⟩ = true) : ∀ v ∈ a.head?, isNameChar v = false := by
  obtain ⟨u, y, hy⟩ := List.exists_cons_of_ne_nil (List.reverse_ne_nil_iff.mpr hne)
  have hu : isNameChar u = true := hx u (List.mem_reverse.mp (by simp [hy]))
  cases a with
  | nil => simp
  | cons v a =>
    by_contra hv
    simp [hy, not_atEdge_inside hu (v := v) (by simpa using hv)] at h

/-- A pattern that begins at an edge does not match inside a word. -/
theorem ends_edge_andThen_inside {p : Pattern} (hu : isNameChar u = true)
    (hv : isNameChar v = true) : (Pattern.edge.andThen p).ends ⟨u :: b, v :: a⟩ = [] := by
  simp [Pattern.ends, not_atEdge_inside hu hv]

/-- The places in a word are its start and places between two name characters. -/
theorem along_word {Q : List Char → List Char → Prop} {x : List Char}
    (hx : ∀ u ∈ x, isNameChar u = true) (hstart : Q b (x ++ a))
    (hinside : ∀ b a u v, isNameChar u = true → isNameChar v = true → Q (u :: b) (v :: a)) :
    Along Q b x a := by
  have hchain : x.IsChain fun u v => isNameChar u = true ∧ isNameChar v = true :=
    (List.pairwise_of_forall_mem_list fun u hu v hv => ⟨hx u hu, hx v hv⟩).isChain
  exact along_of_isChain hchain (fun _ => hstart) fun b a u v hadjoin =>
    hinside b a u v hadjoin.1 hadjoin.2

end

end AskMetrics.Text
