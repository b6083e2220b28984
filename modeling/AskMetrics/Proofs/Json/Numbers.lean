import AskMetrics.Json.Reader
import AskMetrics.Proofs.Text.Word

/-!
# Numbers read back

The text of a number is read as a whole, with the same outcome whatever comes after it, as long as
no character comes after it that a number could go on with. Which number it is read as is another
matter: the reader rounds more than once.
-/
namespace AskMetrics.Json

open Text (takeWhile_append_eq dropWhile_append_eq)

/-- The text does not go on with what could belong to a number before it. -/
def EndsNumber (rest : List Char) : Prop :=
  ∀ c ∈ rest.head?, c.isDigit = false ∧ c ≠ '.' ∧ c ≠ 'e' ∧ c ≠ 'E'

/-- A reader takes a text as a whole and reads the same number whatever comes after it. -/
def ReadsWhole (read : List Char → Option (Number × List Char)) (s : List Char) : Prop :=
  ∃ n, ∀ rest, EndsNumber rest → read (s ++ rest) = some (n, rest)

/-- Decimal digits, at least one. -/
structure IsDigits (s : List Char) : Prop where
  ne_nil : s ≠ []
  isDigit : ∀ c ∈ s, c.isDigit = true

theorem EndsNumber.isDigit {rest : List Char} (h : EndsNumber rest) :
    ∀ c ∈ rest.head?, c.isDigit = false := fun c hc => (h c hc).1

theorem IsDigits.append {s t : List Char} (hs : IsDigits s) (ht : ∀ c ∈ t, c.isDigit = true) :
    IsDigits (s ++ t) where
  ne_nil := by simp [hs.ne_nil]
  isDigit c hc := (List.mem_append.mp hc).elim (hs.isDigit c) (ht c)

/-- The first digit. -/
theorem IsDigits.exists_cons {s : List Char} (h : IsDigits s) :
    ∃ c cs, s = c :: cs ∧ c.isDigit = true := by
  obtain ⟨c, cs, rfl⟩ := List.exists_cons_of_ne_nil h.ne_nil
  exact ⟨c, cs, rfl, h.isDigit c (.head _)⟩

theorem head?_append_isDigit {t rest : List Char} (ht : ∀ c ∈ t.head?, c.isDigit = false)
    (hrest : EndsNumber rest) : ∀ c ∈ (t ++ rest).head?, c.isDigit = false := by
  cases t with
  | nil => exact hrest.isDigit
  | cons c t => simpa using ht

section
variable {negative : Bool} {significand : Nat} {e : Int} {ds s t : List Char}

/-! ## Exponents -/

theorem readExponent_digits (hd : IsDigits ds) (rest : List Char) :
    readExponent negative significand e (ds ++ rest) =
      readExponent negative significand e ('+' :: (ds ++ rest)) := by
  obtain ⟨c, cs, rfl, hc⟩ := hd.exists_cons
  have hplus : c ≠ '+' := by
    rintro rfl
    exact absurd hc (by decide)
  have hminus : c ≠ '-' := by
    rintro rfl
    exact absurd hc (by decide)
  simp only [readExponent, List.cons_append]
  simp [hplus, hminus]

/-- What is read with an exponent `n`, which counts up or down. -/
def withExponent (negative down : Bool) (significand : Nat) (e : Int) (n : Nat) : Number :=
  if n > maxExponent then
    if significand != 0 && !down then .tooLarge else .binary (.zero negative)
  else floating negative significand (if down then e - n else e + n)

theorem readExponent_signed (hd : IsDigits ds) {rest : List Char} (hrest : EndsNumber rest)
    (down : Bool) :
    readExponent negative significand e ((if down then '-' else '+') :: (ds ++ rest)) =
      some (withExponent negative down significand e (Double.ofDigits ds), rest) := by
  have hrun := takeWhile_append_eq hd.isDigit hrest.isDigit
  have hafter := dropWhile_append_eq hd.isDigit hrest.isDigit
  have hsome : ds.isEmpty = false := by simpa using hd.ne_nil
  cases down <;>
    simp only [readExponent, withExponent, if_true, Bool.false_eq_true, if_false, hrun, hafter,
      hsome] <;>
    split_ifs <;> rfl

theorem readsWhole_exponent_minus (hd : IsDigits ds) :
    ReadsWhole (readExponent negative significand e) ('-' :: ds) :=
  ⟨_, fun _ hrest => readExponent_signed hd hrest true⟩

theorem readsWhole_exponent_digits (hd : IsDigits ds) :
    ReadsWhole (readExponent negative significand e) ds :=
  ⟨_, fun rest hrest => (readExponent_digits hd rest).trans (readExponent_signed hd hrest false)⟩

theorem readsWhole_tail_nil : ReadsWhole (readTail negative significand e) [] := by
  refine ⟨floating negative significand e, fun rest hrest => ?_⟩
  cases rest with
  | nil => rfl
  | cons c cs =>
    obtain ⟨-, -, hlower, hupper⟩ := hrest c rfl
    simp [readTail, hlower, hupper]

theorem readsWhole_tail_exponent (hs : ReadsWhole (readExponent negative significand e) s) :
    ReadsWhole (readTail negative significand e) ('e' :: s) := by
  simpa [ReadsWhole, readTail] using hs

/-! ## Significands -/

/-- Digits are taken from the front of a run, and what is left of the run depends on it alone. -/
theorem takeDigits_append (n taken : Nat) (hd : ∀ c ∈ ds, c.isDigit = true) :
    ∃ m k left, (∀ c ∈ left, c.isDigit = true) ∧
      ∀ t, (∀ c ∈ t.head?, c.isDigit = false) →
        takeDigits n taken (ds ++ t) = (m, k, left ++ t) := by
  induction ds generalizing n taken with
  | nil =>
    refine ⟨n, taken, [], by simp, fun t ht => ?_⟩
    cases t with
    | nil => rfl
    | cons c t => simp [takeDigits, ht c rfl]
  | cons c ds ih =>
    obtain ⟨hc, hds⟩ := List.forall_mem_cons.mp hd
    by_cases hfits : n * 10 + digitValue c ≤ maxNatural
    · obtain ⟨m, k, left, hleft, htake⟩ := ih (n * 10 + digitValue c) (taken + 1) hds
      refine ⟨m, k, left, hleft, fun t ht => ?_⟩
      rw [List.cons_append, takeDigits, if_pos (by simp [hc, hfits]), htake t ht]
    · refine ⟨n, taken, c :: ds, hd, fun t _ => ?_⟩
      rw [List.cons_append, takeDigits, if_neg (by simp [hfits])]

/-- Digits after a point, and what comes after them. -/
theorem readsWhole_fraction (hd : IsDigits ds) (ht : ∀ c ∈ t.head?, c.isDigit = false)
    (h : ∀ n e, ReadsWhole (readTail negative n e) t) :
    ReadsWhole (readFraction negative significand e) (ds ++ t) := by
  obtain ⟨m, k, left, hleft, htake⟩ := takeDigits_append significand 0 hd.isDigit
  obtain ⟨n, hn⟩ := h m (e - k)
  refine ⟨n, fun rest hrest => ?_⟩
  obtain ⟨c, cs, rfl, hc⟩ := hd.exists_cons
  have hafter := head?_append_isDigit ht hrest
  rw [readFraction, List.append_assoc, htake _ hafter]
  simp [hc, dropWhile_append_eq hleft hafter, hn rest hrest]

/-! ## Whole parts -/

/-- Digits that a number can begin with: more than one do not begin with a zero. -/
structure IsWhole (s : List Char) : Prop extends IsDigits s where
  eq_zero : s.head? = some '0' → s = ['0']

/-- What is read after the whole part of a number. -/
def readAfterWhole (negative : Bool) (n beyond : Nat) (t : List Char) :
    Option (Number × List Char) :=
  match t with
  | '.' :: cs => readFraction negative n beyond cs
  | c :: cs =>
    if c == 'e' || c == 'E' then readExponent negative n beyond cs
    else some (readUnsigned.whole negative n beyond, t)
  | [] => some (readUnsigned.whole negative n beyond, [])

/-- The whole part of a number is read, whatever comes after it. -/
theorem readUnsigned_append (negative : Bool) {w : List Char} (hw : IsWhole w) :
    ∃ n beyond : Nat, ∀ t, (∀ c ∈ t.head?, c.isDigit = false) →
      readUnsigned negative (w ++ t) = readAfterWhole negative n beyond t := by
  obtain ⟨c, cs, rfl, hc⟩ := hw.exists_cons
  by_cases hzero : c = '0'
  · obtain rfl : cs = [] := by simpa [hzero] using hw.eq_zero
    refine ⟨0, 0, fun t ht => ?_⟩
    subst hzero
    have hnone : t.head?.any Char.isDigit = false := by
      cases t <;> simp_all
    have hrun : t.takeWhile Char.isDigit = [] := takeWhile_append_eq (x := []) (by simp) ht
    have hdrop : t.dropWhile Char.isDigit = t := dropWhile_append_eq (x := []) (by simp) ht
    simp only [readUnsigned, List.cons_append, List.nil_append, List.head?_cons, Option.any_some,
      Char.reduceIsDigit, Bool.not_true, Bool.false_eq_true, ↓reduceIte, hnone, Bool.and_false,
      hdrop, hrun, List.length_nil]
    rfl
  · obtain ⟨m, k, left, hleft, htake⟩ := takeDigits_append 0 0 hw.isDigit
    refine ⟨m, left.length, fun t ht => ?_⟩
    have hread := htake t ht
    rw [List.cons_append] at hread
    simp only [readUnsigned, List.cons_append, List.head?_cons, Option.any_some, hc, Bool.not_true,
      Bool.false_eq_true, ↓reduceIte, Option.some_beq_some, List.cons.injEq, hzero, false_and,
      imp_self, implies_true, hread, Bool.and_eq_true, beq_iff_eq, dropWhile_append_eq hleft ht,
      takeWhile_append_eq hleft ht]
    rfl

section
variable {w : List Char}

/-- A number is read as a whole if what comes after its whole part is. -/
theorem readsWhole_append (hw : IsWhole w) (ht : ∀ c ∈ t.head?, c.isDigit = false)
    (h : ∀ n beyond, ReadsWhole (readAfterWhole negative n beyond) t) :
    ReadsWhole (readUnsigned negative) (w ++ t) := by
  obtain ⟨n, beyond, hread⟩ := readUnsigned_append negative hw
  obtain ⟨m, hm⟩ := h n beyond
  refine ⟨m, fun rest hrest => ?_⟩
  rw [List.append_assoc, hread _ (head?_append_isDigit ht hrest)]
  exact hm rest hrest

theorem readsWhole_point (hw : IsWhole w) (h : ∀ n e, ReadsWhole (readFraction negative n e) s) :
    ReadsWhole (readUnsigned negative) (w ++ '.' :: s) :=
  readsWhole_append hw (by simp) fun n beyond => h n beyond

theorem readsWhole_exponent (hw : IsWhole w)
    (h : ∀ n e, ReadsWhole (readExponent negative n e) s) :
    ReadsWhole (readUnsigned negative) (w ++ 'e' :: s) :=
  readsWhole_append hw (by simp) fun n beyond => h n beyond

theorem readsWhole_whole (hw : IsWhole w) : ReadsWhole (readUnsigned negative) w := by
  have hend (n beyond : Nat) : ReadsWhole (readAfterWhole negative n beyond) [] := by
    refine ⟨readUnsigned.whole negative n beyond, fun rest hrest => ?_⟩
    cases rest with
    | nil => rfl
    | cons c cs =>
      obtain ⟨-, hpoint, hlower, hupper⟩ := hrest c rfl
      simp [readAfterWhole, hlower, hupper]
  simpa using readsWhole_append (t := []) hw (by simp) hend

end

end

/-! ## Digits of natural numbers -/

theorem toList_repr (n : Nat) : n.repr.toList = Nat.toDigits 10 n := by
  rw [Nat.repr, String.toList_ofList]

theorem isDigits_toDigits (n : Nat) : IsDigits (Nat.toDigits 10 n) where
  ne_nil := Nat.toDigits_ne_nil
  isDigit _ := Nat.isDigit_of_mem_toDigits (by decide) (by decide)

/-- Digits do not begin with a zero, except for zero itself. -/
theorem head?_toDigits_ne {n : Nat} (hn : n ≠ 0) : (Nat.toDigits 10 n).head? ≠ some '0' := by
  induction n using Nat.strong_induction_on with
  | _ n ih =>
    rw [Nat.toDigits_eq_if (by decide)]
    split_ifs with hsmall
    · have hdigit : ∀ m < 10, m ≠ 0 → [m.digitChar].head? ≠ some '0' := by decide
      exact hdigit n hsmall hn
    · rw [List.head?_append_of_ne_nil _ Nat.toDigits_ne_nil]
      exact ih (n / 10) (by omega) (by omega)

theorem isWhole_toDigits (n : Nat) : IsWhole (Nat.toDigits 10 n) where
  toIsDigits := isDigits_toDigits n
  eq_zero h := by
    by_cases hn : n = 0
    · subst hn
      rfl
    · exact absurd h (head?_toDigits_ne hn)

/-! ## Texts of numbers -/

/-- A text that is read whole as a number, after a sign as well. -/
structure IsUnsigned (s : List Char) : Prop where
  first : ∃ c cs, s = c :: cs ∧ c.isDigit = true
  readsWhole : ∀ negative, ReadsWhole (readUnsigned negative) s

section
variable {s w : List Char}

theorem IsUnsigned.of_append (hw : IsWhole w)
    (h : ∀ negative, ReadsWhole (readUnsigned negative) (w ++ s)) : IsUnsigned (w ++ s) where
  first := by
    obtain ⟨c, cs, rfl, hc⟩ := hw.exists_cons
    exact ⟨c, cs ++ s, rfl, hc⟩
  readsWhole := h

theorem IsUnsigned.whole (hw : IsWhole w) : IsUnsigned w where
  first := hw.exists_cons
  readsWhole _ := readsWhole_whole hw

theorem IsUnsigned.point (hw : IsWhole w) (hs : IsDigits s) : IsUnsigned (w ++ '.' :: s) :=
  .of_append hw fun _ => readsWhole_point hw fun _ _ => by
    simpa using readsWhole_fraction hs (t := []) (by simp) fun _ _ => readsWhole_tail_nil

theorem IsUnsigned.readsWhole_number (h : IsUnsigned s) : ReadsWhole readNumber s := by
  obtain ⟨c, cs, rfl, hc⟩ := h.first
  have hminus : c ≠ '-' := by
    rintro rfl
    exact absurd hc (by decide)
  obtain ⟨n, hn⟩ := h.readsWhole false
  refine ⟨n, fun rest hrest => ?_⟩
  rw [← hn rest hrest, List.cons_append, readNumber]
  simpa using hminus

theorem IsUnsigned.readsWhole_number_minus (h : IsUnsigned s) : ReadsWhole readNumber ('-' :: s) :=
  h.readsWhole true

/-- An exponent as it is written. -/
theorem readsWhole_exponent_toString (negative : Bool) (n : Nat) (e i : Int) :
    ReadsWhole (readExponent negative n e) (toString i).toList := by
  cases i with
  | ofNat m =>
    have htext : (toString (Int.ofNat m)).toList = Nat.toDigits 10 m := toList_repr m
    rw [htext]
    exact readsWhole_exponent_digits (isDigits_toDigits m)
  | negSucc m =>
    have htext : (toString (Int.negSucc m)).toList = '-' :: Nat.toDigits 10 (m + 1) := by
      simp [toString, Int.repr]
    rw [htext]
    exact readsWhole_exponent_minus (isDigits_toDigits (m + 1))

/-- One digit before the point, then the others, then an exponent. -/
theorem IsUnsigned.scientific (i : Int) : IsDigits s →
    IsUnsigned ((match s with
      | first :: second :: rest => first :: '.' :: second :: rest
      | short => short) ++ 'e' :: (toString i).toList) := by
  intro hs
  have hone {c : Char} (hc : c.isDigit = true) : IsWhole [c] :=
    { ne_nil := by simp, isDigit := by simpa using hc, eq_zero := by simp }
  obtain ⟨c, cs, rfl, hc⟩ := hs.exists_cons
  cases cs with
  | nil =>
    exact .of_append (hone hc) fun _ => readsWhole_exponent (hone hc) fun _ _ =>
      readsWhole_exponent_toString ..
  | cons c' cs =>
    have hrest : IsDigits (c' :: cs) :=
      { ne_nil := by simp, isDigit := fun u hu => hs.isDigit u (.tail _ hu) }
    refine .of_append (w := [c]) (s := '.' :: c' :: cs ++ 'e' :: (toString i).toList) (hone hc)
      fun _ => readsWhole_point (hone hc) fun _ _ => ?_
    exact readsWhole_fraction hrest (by simp) fun _ _ => readsWhole_tail_exponent
      (readsWhole_exponent_toString ..)

end

/-! ## Floating point numbers -/

open Double (digitsOf positional signText)

theorem digitsOf_eq (n : Nat) : digitsOf n = Nat.toDigits 10 n := toList_repr n

section
variable {ds : List Char}

theorem isDigit_replicate_zero (n : Nat) : ∀ c ∈ List.replicate n '0', c.isDigit = true := by
  intro c hc
  rw [List.eq_of_mem_replicate hc]
  decide

/-- Digits with zeros after them. -/
theorem isWhole_positional (hd : IsDigits ds) (hfirst : ds.head? ≠ some '0') {e : Int}
    (he : 0 ≤ e) : IsWhole (positional ds e) := by
  rw [positional, if_pos he]
  refine { toIsDigits := hd.append (isDigit_replicate_zero _), eq_zero := fun h => ?_ }
  rw [List.head?_append_of_ne_nil _ hd.ne_nil] at h
  exact absurd h hfirst

/-- Digits with a point before the last `places` of them. -/
theorem isUnsigned_cut {places : Nat} (hd : ∀ c ∈ ds, c.isDigit = true) (hplaces : 0 < places)
    (hlength : places < ds.length) (hzero : ds.head? = some '0' → ds.length = places + 1) :
    IsUnsigned (ds.take (ds.length - places) ++ '.' :: ds.drop (ds.length - places)) := by
  refine .point { ne_nil := ?_, isDigit := ?_, eq_zero := fun h => ?_ }
    { ne_nil := ?_, isDigit := ?_ }
  · exact List.ne_nil_of_length_pos (by rw [List.length_take]; omega)
  · exact fun c hc => hd c (List.mem_of_mem_take hc)
  · rw [List.head?_take, if_neg (by omega)] at h
    obtain ⟨cs, rfl⟩ := List.head?_eq_some_iff.mp h
    rw [hzero h, Nat.add_sub_cancel_left]
    rfl
  · exact List.ne_nil_of_length_pos (by rw [List.length_drop]; omega)
  · exact fun c hc => hd c (List.mem_of_mem_drop hc)

/-- Digits with a point among or before them. -/
theorem isUnsigned_positional (hd : IsDigits ds) (hfirst : ds.head? ≠ some '0') {e : Int}
    (he : e < 0) : IsUnsigned (positional ds e) := by
  rw [positional, if_neg (by omega)]
  refine isUnsigned_cut ?_ (by omega) (by simp; omega) fun h => ?_
  · simp only [List.mem_append]
    rintro c (hc | hc)
    · exact isDigit_replicate_zero _ c hc
    · exact hd.isDigit c hc
  · by_cases hshort : ds.length ≤ (-e).toNat
    · simp only [List.length_append, List.length_replicate]
      omega
    · rw [show (-e).toNat + 1 - ds.length = 0 by omega] at h
      exact absurd h hfirst

end

open Double in
/-- The text of a floating point number is one that is read as a whole. -/
theorem isUnsigned_literal (d : Double) :
    ∃ s, IsUnsigned s ∧ d.literal.toList = signText d ++ s := by
  obtain ⟨k, e, hshortest⟩ : ∃ k e, d.shortest = (k, e) := ⟨_, _, rfl⟩
  simp only [literal, hshortest, String.toList_ofList, digitsOf_eq]
  refine ⟨_, ?_, rfl⟩
  have hd := isDigits_toDigits k
  split_ifs with hzero hwhole hpoint
  · exact .point (w := ['0']) (isWhole_toDigits 0) (isDigits_toDigits 0)
  · exact .point (isWhole_positional hd (head?_toDigits_ne hzero) (by simp_all))
      (isDigits_toDigits 0)
  · exact isUnsigned_positional hd (head?_toDigits_ne hzero) (by simp_all)
  · exact .scientific _ hd

/-- The text of a number, unless it is null, is one that is read as a whole after its sign. -/
theorem Number.render_cases (n : Number) :
    n.render = "null" ∨
      ∃ s, IsUnsigned s ∧ (n.render.toList = s ∨ n.render.toList = '-' :: s) := by
  cases n with
  | natural n => exact .inr ⟨_, .whole (isWhole_toDigits n), .inl (toList_repr n)⟩
  | negative n =>
    have htext : (Number.negative n).render.toList = '-' :: Nat.toDigits 10 n := by
      simp [Number.render, toString]
    exact .inr ⟨_, .whole (isWhole_toDigits n), .inr htext⟩
  | binary d =>
    by_cases hfinite : d.isFinite
    · obtain ⟨s, hs, htext⟩ := isUnsigned_literal d
      refine .inr ⟨s, hs, ?_⟩
      rw [Number.render, if_pos hfinite, htext, signText]
      split_ifs
      · exact .inr rfl
      · exact .inl rfl
    · exact .inl (by simp [Number.render, hfinite])
  | tooLarge => exact .inl rfl

end AskMetrics.Json
