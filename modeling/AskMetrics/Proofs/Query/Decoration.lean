import AskMetrics.Proofs.Query.Check
import AskMetrics.Proofs.Query.NormalForm
import AskMetrics.Proofs.Query.Outside

/-!
# Decorations

A model that is asked for one line of PromQL likes to decorate it: with an opening code fence, an
echoed label, quotes around the line and a stop inside them, and with more lines of whatever kind
below. Normalizing takes all of this away at once, for every text in normal form.

There is one case in which it cannot. The colon of a label may stand on the next line, so a line
that is nothing but the word of a label, with a colon below it, is a label and no query.
-/
namespace AskMetrics.Query

open AskMetrics.Text

/-! ## Decorated texts -/

/-- The end of a line. Blanks may stand before the line break. -/
structure LineEnd where
  blanks : List Char
  isBlank : ∀ u ∈ blanks, isBlank u = true ∧ u ≠ '\n'

/-- An opening code fence on a line of its own, with the name of the language or without. -/
structure OpeningFence where
  language : List Char
  isLanguage : language = [] ∨ lowerAscii language = "promql".toList
  lineEnd : LineEnd

/-- A label with the blanks around its colon. -/
structure EchoedLabel where
  word : List Char
  isWord : IsLabelWord word
  before : List Char
  after : List Char
  isBlank_before : ∀ u ∈ before, isBlank u = true
  isBlank_after : ∀ u ∈ after, isBlank u = true

/-- A quote. -/
structure Quote where
  char : Char
  isQuote : isQuote char = true

/-- A mark of punctuation that is left out at the end. -/
structure Stop where
  char : Char
  isStop : isStop char = true

/-- The end of a line and any text below it. -/
structure Below where
  lineEnd : LineEnd
  text : List Char

/-- What can be put around a text. -/
structure Decoration where
  opening : Option OpeningFence
  echoed : Option EchoedLabel
  /-- The quote on both sides. -/
  quote : Option Quote
  /-- The stop inside the quotes. -/
  stop : Option Stop
  below : Option Below

/-- The text of a line end. -/
def LineEnd.text (e : LineEnd) : List Char := e.blanks ++ ['\n']

/-- The text of a fence. -/
def OpeningFence.text (f : OpeningFence) : List Char :=
  "\x60\x60\x60".toList ++ (f.language ++ f.lineEnd.text)

/-- The text of a label. -/
def EchoedLabel.text (l : EchoedLabel) : List Char := l.word ++ (l.before ++ ':' :: l.after)

namespace Decoration

/-- The text of a part that may be missing. -/
def textOf {α : Type} (text : α → List Char) (part : Option α) : List Char := part.elim [] text

/-- A text with its stop. -/
def stopped (d : Decoration) (q : List Char) : List Char :=
  q ++ textOf (fun u => [u.char]) d.stop

/-- The line of a decorated text. -/
def line (d : Decoration) (q : List Char) : List Char :=
  textOf (fun k => [k.char]) d.quote ++ (d.stopped q ++ textOf (fun k => [k.char]) d.quote)

/-- A text with all its decoration. -/
def around (d : Decoration) (q : List Char) : List Char :=
  textOf OpeningFence.text d.opening ++ (textOf EchoedLabel.text d.echoed ++
    (d.line q ++ textOf (fun f => f.lineEnd.text ++ f.text) d.below))

/-- A text that stands on its line alone, is the word of a label, and has a colon below it when code
fences are left out. -/
structure ReadsAsLabel (d : Decoration) (q : List Char) : Prop where
  no_label : d.echoed = none
  no_quote : d.quote = none
  no_stop : d.stop = none
  isWord : IsLabelWord q
  colon : ∃ f ∈ d.below, ∃ y r, (∀ u ∈ y, isBlank u = true) ∧ dropFences f.text = y ++ ':' :: r

end Decoration

/-! ## Fences -/

/-- The mark of a code fence. -/
def fenceMark : List Char := ['\x60', '\x60', '\x60']

section
variable {b x a s q : List Char} {u : Char}

theorem matchAt_fence_eq_none_iff : matchAt [fence] ⟨b, a⟩ = none ↔ ¬ fenceMark <+: a := by
  have hmark : "\x60\x60\x60".toList = fenceMark := by decide
  rw [matchAt_singleton, Option.map_eq_none_iff, Pattern.first_eq_none_iff]
  constructor
  · rintro hends ⟨r, rfl⟩
    have hread : (⟨fenceMark.reverse ++ b, r⟩ : Cursor) ∈
        (Pattern.literal "\x60\x60\x60").ends ⟨b, fenceMark ++ r⟩ := by
      rw [Pattern.mem_ends_literal, hmark]
      exact Cursor.reads_mk ..
    have hmem : (⟨fenceMark.reverse ++ b, r⟩ : Cursor) ∈ fence.ends ⟨b, fenceMark ++ r⟩ :=
      Pattern.mem_ends_andThen.mpr
        ⟨_, hread, Pattern.mem_ends_orElse.mpr (.inr (Pattern.mem_ends_empty.mpr rfl))⟩
    rw [hends] at hmem
    exact absurd hmem (by simp)
  · intro hno
    rw [List.eq_nil_iff_forall_not_mem]
    intro d hd
    obtain ⟨e, he, -⟩ := Pattern.mem_ends_andThen.mp hd
    have hread := (Pattern.mem_ends_literal.mp he).ahead
    rw [hmark] at hread
    exact hno ⟨e.ahead, hread.symm⟩

/-- No fence starts at a place of the part `x`, which has `b` before it and `a` after it. -/
def Unfenced (b x a : List Char) : Prop := Along (fun b a => matchAt [fence] ⟨b, a⟩ = none) b x a

theorem unfenced_of_not_backtick (hx : ∀ u ∈ x, u ≠ '\x60') : Unfenced b x a :=
  along_of_next fun _ hu _ _ => matchAt_singleton_eq_none (ends_fence (hx _ hu))

/-- A single character before something else than a backtick. -/
theorem unfenced_singleton (ha : ∀ v ∈ a.head?, v ≠ '\x60') : Unfenced b [u] a := by
  refine ⟨matchAt_fence_eq_none_iff.mpr ?_, trivial⟩
  rintro ⟨r, hr⟩
  obtain ⟨-, rfl⟩ := List.cons.inj hr
  exact ha '\x60' rfl rfl

/-- A text that does not end in a backtick has no more fences with anything behind it. -/
theorem unfenced_append (hx : Unfenced b x []) (hlast : ∀ v ∈ x.getLast?, v ≠ '\x60')
    {b' : List Char} : Unfenced b' x a := by
  induction x generalizing b b' with
  | nil => trivial
  | cons u x ih =>
    obtain ⟨hhere, hrest⟩ := hx
    refine ⟨matchAt_fence_eq_none_iff.mpr fun hmark => ?_, ih hrest fun v hv => hlast v ?_⟩
    · rw [List.append_nil, matchAt_fence_eq_none_iff] at hhere
      rcases List.prefix_or_prefix_of_prefix hmark (List.prefix_append (u :: x) a) with h | h
      · exact hhere h
      · have hall : ∀ v ∈ fenceMark, v = '\x60' := by simp [fenceMark]
        have hmem := List.getLast_mem (List.cons_ne_nil u x)
        exact hlast _ (List.getLast?_eq_some_getLast _) (hall _ (h.subset hmem))
    · rw [List.getLast?_cons, Option.mem_def.mp hv]
      rfl

theorem not_backtick_of_not_isQuote (h : isQuote u = false) : u ≠ '\x60' := by
  rintro rfl
  exact absurd h (by decide)

theorem not_backtick_of_isBlank (h : isBlank u = true) : u ≠ '\x60' :=
  not_backtick_of_not_isQuote (isQuote_of_isBlank h)

theorem LineEnd.isBlank_of_mem (e : LineEnd) : ∀ u ∈ e.text, Text.isBlank u = true := by
  intro u hu
  rcases List.mem_append.mp hu with hu | hu
  · exact (e.isBlank u hu).1
  · obtain rfl : u = '\n' := by simpa using hu
    decide

theorem LineEnd.exists_cons (e : LineEnd) : ∃ u x, e.text = u :: x ∧ Text.isBlank u = true := by
  obtain ⟨u, x, hx⟩ := List.exists_cons_of_ne_nil (l := e.text) (by simp [LineEnd.text])
  exact ⟨u, x, hx, e.isBlank_of_mem u (by simp [hx])⟩

theorem EchoedLabel.not_backtick (l : EchoedLabel) : ∀ u ∈ l.text, u ≠ '\x60' := by
  intro u hu
  simp only [EchoedLabel.text, List.mem_append, List.mem_cons] at hu
  rcases hu with hu | hu | rfl | hu
  · exact ne_of_isWord (isWord_of_isAlpha (l.isWord.isAlpha u hu)) (by decide)
  · exact not_backtick_of_isBlank (l.isBlank_before u hu)
  · decide
  · exact not_backtick_of_isBlank (l.isBlank_after u hu)

/-- The opening fence is matched up to the end of its line. -/
theorem matchAt_openingFence (f : OpeningFence) (a : List Char) :
    ∃ m, matchAt [fence] ⟨[], f.text ++ a⟩ = some m ∧
      m.stop = ⟨f.language.reverse ++ fenceMark.reverse, f.lineEnd.text ++ a⟩ := by
  have hlanguage : (Pattern.optional (.anyCase "promql")).first
      ⟨fenceMark.reverse, f.language ++ (f.lineEnd.text ++ a)⟩ =
        some ⟨f.language.reverse ++ fenceMark.reverse, f.lineEnd.text ++ a⟩ := by
    rcases f.isLanguage with hnil | hlower
    · have hnone : (Pattern.anyCase "promql").ends ⟨fenceMark.reverse, f.lineEnd.text ++ a⟩ = [] := by
        rw [List.eq_nil_iff_forall_not_mem]
        intro d hd
        obtain ⟨w, hw, hread⟩ := Pattern.mem_ends_anyCase.mp hd
        rw [forall₂_sameLetter_labelWord (by decide)] at hw
        have hword : IsLabelWord w := ⟨"promql", by decide, hw⟩
        obtain ⟨v, w, rfl⟩ := List.exists_cons_of_ne_nil hword.ne_nil
        obtain ⟨u, x, hline, hblank⟩ := f.lineEnd.exists_cons
        have hahead := hread.ahead
        rw [hline] at hahead
        obtain ⟨rfl, -⟩ := List.cons.inj hahead
        have hletter := isBlank_of_isWord (isWord_of_isAlpha (hword.isAlpha u (.head _)))
        simp [hblank] at hletter
      rw [hnil]
      exact Pattern.first_orElse_right hnone
    · exact Pattern.first_orElse_left
        (Pattern.first_anyCase ((forall₂_sameLetter_labelWord (by decide)).mpr hlower))
  have hmark : "\x60\x60\x60".toList = fenceMark := by decide
  have hfirst : fence.first ⟨[], f.text ++ a⟩ =
      some ⟨f.language.reverse ++ fenceMark.reverse, f.lineEnd.text ++ a⟩ := by
    have hopen := Pattern.first_literal (s := "\x60\x60\x60") (b := [])
      (a := f.language ++ (f.lineEnd.text ++ a))
    have hall := Pattern.first_andThen hopen (by simpa [hmark] using hlanguage)
    simpa [fence, OpeningFence.text] using hall
  have hmatch := matchAt_singleton (p := fence) (c := ⟨[], f.text ++ a⟩)
  rw [hfirst, Option.map_some] at hmatch
  exact ⟨_, hmatch, rfl⟩

namespace Decoration
variable {d : Decoration}

/-- What lies below the line when code fences are left out. -/
def tail (d : Decoration) : List Char :=
  textOf (fun f => f.lineEnd.text ++ dropFences f.text) d.below

theorem head?_below (d : Decoration) :
    ∀ v ∈ (textOf (fun f => f.lineEnd.text ++ f.text) d.below).head?, Text.isBlank v = true := by
  cases d.below with
  | none => simp [textOf]
  | some f =>
    obtain ⟨u, x, hx, hu⟩ := f.lineEnd.exists_cons
    simpa [textOf, hx] using hu

/-- Behind a line break a text is rewritten as by itself. -/
theorem rewrites_below (d : Decoration) (b : List Char) :
    Rewrites [fence] (fun _ => []) ⟨b, textOf (fun f => f.lineEnd.text ++ f.text) d.below⟩
      d.tail := by
  unfold tail
  cases d.below with
  | none => exact .done b
  | some f =>
    refine .keep (unfenced_of_not_backtick fun u hu =>
      not_backtick_of_isBlank (f.lineEnd.isBlank_of_mem u hu)) ?_
    refine (rewrites_dropFences f.text).alike (by decide) (fun _ _ _ => rfl) ⟨rfl, ?_⟩
    simp [LineEnd.text, Cursor.start, show isWord '\n' = false by decide]

theorem unfenced_stopped (hq : Plain q) : Unfenced b (d.stopped q) a := by
  have hinside : Unfenced [] q [] := by
    simpa only [Unfenced, matchAt_singleton, Option.map_eq_none_iff, Pattern.first_eq_none_iff]
      using hq.no_fence
  have hstop : ∀ u ∈ textOf (fun u : Stop => [u.char]) d.stop, u ≠ '\x60' := by
    cases d.stop with
    | none => simp [textOf]
    | some u =>
      have hu := u.isStop
      simp only [textOf, Option.elim_some, List.mem_singleton, forall_eq]
      rintro heq
      rw [heq] at hu
      exact absurd hu (by decide)
  rw [stopped, Unfenced, along_append]
  exact ⟨unfenced_append hinside fun v hv => not_backtick_of_not_isQuote (hq.last v hv).1,
    unfenced_of_not_backtick hstop⟩

theorem unfenced_line (hq : Plain q) (ha : ∀ v ∈ a.head?, v ≠ '\x60') :
    Unfenced b (d.line q) a := by
  unfold line
  cases d.quote with
  | none =>
    rw [show textOf (fun k : Quote => [k.char]) none = [] from rfl, List.append_nil]
    exact unfenced_stopped hq
  | some k =>
    have hopen : ∀ v ∈ (d.stopped q ++ [k.char] ++ a).head?, v ≠ '\x60' := by
      intro v hv
      rw [stopped, List.append_assoc, List.append_assoc,
        List.head?_append_of_ne_nil _ hq.spaced.ne_nil] at hv
      exact not_backtick_of_not_isQuote (hq.first v hv)
    rw [Unfenced, along_append, along_append]
    exact ⟨unfenced_singleton hopen, unfenced_stopped hq, unfenced_singleton ha⟩

/-- Without code fences the line is left, with the label, the end of the fence's line, and what lies
below. -/
theorem dropFences_around (d : Decoration) (hq : Plain q) :
    dropFences (d.around q) = textOf (fun f => f.lineEnd.text) d.opening ++
      (textOf EchoedLabel.text d.echoed ++ (d.line q ++ d.tail)) := by
  refine Rewrites.replaceAll_eq ?_
  have hline : ∀ b, Rewrites [fence] (fun _ => [])
      ⟨b, d.line q ++ textOf (fun f => f.lineEnd.text ++ f.text) d.below⟩ (d.line q ++ d.tail) :=
    fun b => .keep (unfenced_line hq fun v hv => not_backtick_of_isBlank (d.head?_below v hv))
      (d.rewrites_below _)
  have hlabel : ∀ b, Rewrites [fence] (fun _ => []) ⟨b, textOf EchoedLabel.text d.echoed ++
      (d.line q ++ textOf (fun f => f.lineEnd.text ++ f.text) d.below)⟩
        (textOf EchoedLabel.text d.echoed ++ (d.line q ++ d.tail)) := by
    intro b
    refine .keep (unfenced_of_not_backtick ?_) (hline _)
    cases d.echoed with
    | none => simp [textOf]
    | some l => exact l.not_backtick
  unfold around
  cases d.opening with
  | none => exact hlabel []
  | some f =>
    obtain ⟨m, hmatch, hstop⟩ := matchAt_openingFence f (textOf EchoedLabel.text d.echoed ++
      (d.line q ++ textOf (fun f => f.lineEnd.text ++ f.text) d.below))
    have hend : ∀ u ∈ f.lineEnd.text, u ≠ '\x60' := fun u hu =>
      not_backtick_of_isBlank (f.lineEnd.isBlank_of_mem u hu)
    refine .hit hmatch (length_stop_of_matchAt_fence hmatch) ?_
    rw [hstop]
    exact .keep (unfenced_of_not_backtick hend) (hlabel _)

end Decoration

end

/-! ## Lines -/

/-- What may stand behind a line: nothing, or the end of the line and any text. -/
def EndsLine (t : List Char) : Prop := t = [] ∨ ∃ (e : LineEnd) (z : List Char), t = e.text ++ z

section
variable {q s t r : List Char} {u : Char}

theorem EndsLine.trimEnd (h : EndsLine t) : EndsLine (trimEnd t) := by
  rcases h with rfl | ⟨e, z, rfl⟩
  · exact .inl rfl
  · rw [trimEnd_append]
    split_ifs
    · exact .inl (trimEnd_blanks e.isBlank_of_mem)
    · exact .inr ⟨e, _, rfl⟩

theorem EndsLine.isBlank_head? (h : EndsLine t) : ∀ v ∈ t.head?, isBlank v = true := by
  rcases h with rfl | ⟨e, z, rfl⟩
  · simp
  · obtain ⟨u, x, hx, hu⟩ := e.exists_cons
    simpa [hx] using hu

/-- A line is the first one of a text that goes on below it. -/
theorem firstLine_append (hne : s ≠ []) (hhead : ∀ v ∈ s.head?, isBlank v = false)
    (hlast : ∀ v ∈ s.getLast?, isBlank v = false) (hline : '\n' ∉ s) (ht : EndsLine t) :
    firstLine (s ++ t) = s := by
  have hfirst : ∀ {y : List Char} {parts : List (List Char)},
      (∀ v ∈ y, isBlank v = true ∧ v ≠ '\n') → pieces (· == '\n') (s ++ t) = (s ++ y) :: parts →
        firstLine (s ++ t) = s := by
    intro y parts hy hpieces
    have htrim : trim (s ++ y) = s := by
      rw [trim_append hne hhead hlast, trimEnd_blanks fun v hv => (hy v hv).1, List.append_nil]
    rw [firstLine, hpieces, List.map_cons, htrim, List.find?_cons_of_pos (by simpa using hne)]
    rfl
  have hsingle : ∀ {y : List Char}, (∀ v ∈ y, isBlank v = true ∧ v ≠ '\n') →
      pieces (· == '\n') (s ++ y) = [s ++ y] := by
    intro y hy
    refine pieces_eq_singleton fun v hv => beq_eq_false_iff_ne.mpr ?_
    rcases List.mem_append.mp hv with hv | hv
    · exact ne_of_mem_of_not_mem hv hline
    · exact (hy v hv).2
  rcases ht with rfl | ⟨e, z, rfl⟩
  · exact hfirst (y := []) (by simp) (hsingle (by simp))
  · have hcut : pieces (· == '\n') (s ++ e.blanks ++ '\n' :: z) =
        pieces (· == '\n') (s ++ e.blanks) ++ pieces (· == '\n') z :=
      pieces_append_cons (by simp) (s ++ e.blanks) z
    rw [hsingle e.isBlank] at hcut
    exact hfirst e.isBlank (by simpa [LineEnd.text] using hcut)

theorem not_isBlank_of_isAlpha (h : u.isAlpha = true) : isBlank u = false :=
  isBlank_of_isWord (isWord_of_isAlpha h)

theorem not_isAlpha_of_isQuote (h : isQuote u = true) : u.isAlpha = false := by
  by_contra hletter
  have hname : isNameChar u = true := by simp_all [isNameChar, Char.isAlphanum]
  simp [isQuote_of_isNameChar hname] at h

theorem eq_of_isStop (h : isStop u = true) : u = '.' ∨ u = ';' ∨ u = ',' := by
  simpa [isStop, or_assoc] using h

/-- A label begins with a letter. -/
theorem Labelled.isAlpha_head? (h : Labelled s r) : ∀ v ∈ s.head?, v.isAlpha = true := by
  obtain ⟨w, y, hw, -, rfl⟩ := h
  intro v hv
  rw [List.head?_append_of_ne_nil _ hw.ne_nil] at hv
  exact hw.isAlpha v (List.mem_of_mem_head? hv)

/-- A plain text can begin a label only as a part of its word. -/
theorem Plain.labelled_append (hq : Plain q) (h : Labelled (q ++ t) r) :
    ∃ x y, IsLabelWord (q ++ x) ∧ (∀ v ∈ y, isBlank v = true) ∧ t = x ++ (y ++ ':' :: r) := by
  have hlast : ∀ {w y : List Char}, (∀ v ∈ y, isBlank v = true) → q = w ++ y → y = [] := by
    intro w y hy heq
    by_contra hne
    have hend : q.getLast? = some (y.getLast hne) := by
      rw [heq, List.getLast?_append_of_ne_nil _ hne, List.getLast?_eq_some_getLast hne]
    have hblank := hy _ (List.getLast_mem hne)
    simp [hq.spaced.getLast?_not_blank _ hend] at hblank
  obtain ⟨w, y, hw, hy, heq⟩ := h
  rcases List.append_eq_append_iff.mp heq with ⟨x, rfl, ht⟩ | ⟨z, hqz, hz⟩
  · exact ⟨x, y, hw, hy, ht⟩
  · -- the word lies inside the text
    rcases List.append_eq_append_iff.mp hz with ⟨a, rfl, ha⟩ | ⟨a, rfl, ha⟩
    · rcases List.append_eq_cons_iff.mp ha.symm with ⟨rfl, ht⟩ | ⟨a, rfl, -⟩
      · rw [List.append_nil] at hqz
        obtain rfl := hlast hy hqz
        exact ⟨[], [], by simpa [hqz] using hw, by simp, by simpa using ht⟩
      · exact absurd ⟨w, y, hw, hy, hqz⟩ (findFirst_label_eq_none_iff.mp hq.no_label a)
    · obtain ⟨hblank, hy⟩ := List.forall_mem_append.mp hy
      obtain rfl := hlast hblank hqz
      exact ⟨[], a, by simpa [hqz] using hw, hy, by simpa using ha⟩

theorem Plain.not_labelled_append (hq : Plain q)
    (ht : ∀ v ∈ t.head?, v.isAlpha = false ∧ isBlank v = false ∧ v ≠ ':') :
    ∀ r, ¬ Labelled (q ++ t) r := by
  intro r h
  obtain ⟨x, y, hword, hy, rfl⟩ := hq.labelled_append h
  match x, y with
  | [], [] => exact (ht ':' rfl).2.2 rfl
  | [], v :: y =>
    have hblank := hy v (.head _)
    simp [(ht v rfl).2.1] at hblank
  | v :: x, y =>
    have hletter := hword.isAlpha v (by simp)
    simp [(ht v rfl).1] at hletter

/-- With a blank behind it a plain text that begins a label is its word. -/
theorem Plain.isLabelWord_of_labelled (hq : Plain q) (ht : ∀ v ∈ t.head?, isBlank v = true)
    (h : Labelled (q ++ t) r) :
    IsLabelWord q ∧ ∃ y, (∀ v ∈ y, isBlank v = true) ∧ t = y ++ ':' :: r := by
  obtain ⟨x, y, hword, hy, rfl⟩ := hq.labelled_append h
  cases x with
  | nil => exact ⟨by simpa using hword, y, hy, rfl⟩
  | cons v x =>
    have hletter := not_isBlank_of_isAlpha (hword.isAlpha v (by simp))
    simp [ht v rfl] at hletter

/-! ## The steps of normalizing -/

namespace Decoration
variable {d : Decoration}

theorem edges_stopped (hq : Plain q) :
    (∀ v ∈ (d.stopped q).head?, isBlank v = false ∧ isQuote v = false) ∧
      ∀ v ∈ (d.stopped q).getLast?, isBlank v = false ∧ isQuote v = false := by
  constructor
  · intro v hv
    rw [stopped, List.head?_append_of_ne_nil _ hq.spaced.ne_nil] at hv
    exact ⟨hq.spaced.head?_not_blank v hv, hq.first v hv⟩
  · unfold stopped
    cases d.stop with
    | none =>
      intro v hv
      rw [textOf, Option.elim_none, List.append_nil] at hv
      exact ⟨hq.spaced.getLast?_not_blank v hv, (hq.last v hv).1⟩
    | some u =>
      intro v hv
      obtain rfl : u.char = v := by simpa [textOf] using hv
      rcases eq_of_isStop u.isStop with h | h | h <;> rw [h] <;> decide

theorem stopped_ne_nil (hq : Plain q) : d.stopped q ≠ [] := by
  simp [stopped, hq.spaced.ne_nil]

theorem newline_not_mem_stopped (hq : Plain q) : '\n' ∉ d.stopped q := by
  intro hmem
  rcases List.mem_append.mp hmem with hmem | hmem
  · exact absurd (hq.spaced.eq_space_of_isBlank hmem (by decide)) (by decide)
  · cases hstop : d.stop with
    | none => simp [hstop, textOf] at hmem
    | some u =>
      obtain hu : '\n' = u.char := by simpa [hstop, textOf] using hmem
      rcases eq_of_isStop u.isStop with h | h | h <;> rw [h] at hu <;> exact absurd hu (by decide)

/-- The edges of a line, and no line break inside. -/
theorem edges_line (hq : Plain q) :
    (d.line q ≠ [] ∧ '\n' ∉ d.line q) ∧
      (∀ v ∈ (d.line q).head?, isBlank v = false) ∧ ∀ v ∈ (d.line q).getLast?, isBlank v = false := by
  obtain ⟨hhead, hlast⟩ := edges_stopped (d := d) hq
  have hbreak := newline_not_mem_stopped (d := d) hq
  unfold line
  cases d.quote with
  | none =>
    simp only [textOf, Option.elim_none, List.nil_append, List.append_nil]
    exact ⟨⟨stopped_ne_nil hq, hbreak⟩, fun v hv => (hhead v hv).1, fun v hv => (hlast v hv).1⟩
  | some k =>
    have hblank : isBlank k.char = false := by
      by_contra h
      exact absurd k.isQuote (by simp [isQuote_of_isBlank (by simpa using h)])
    have hnewline : '\n' ≠ k.char := fun h => absurd (h ▸ hblank) (by decide)
    have hend : (k.char :: (d.stopped q ++ [k.char])).getLast? = some k.char := by
      rw [← List.cons_append, List.getLast?_concat]
    simp [textOf, hblank, hnewline, hbreak, hend]

/-- Only a bare word that has a colon behind it is taken for a label. -/
theorem isLabelWord_of_labelled_line (hq : Plain q) (ht : ∀ v ∈ t.head?, isBlank v = true)
    (h : Labelled (d.line q ++ t) r) :
    d.quote = none ∧ d.stop = none ∧ IsLabelWord q ∧
      ∃ y, (∀ v ∈ y, isBlank v = true) ∧ t = y ++ ':' :: r := by
  unfold line stopped at h
  cases hquote : d.quote with
  | some k =>
    have hletter := h.isAlpha_head? k.char (by simp [hquote, textOf])
    simp [not_isAlpha_of_isQuote k.isQuote] at hletter
  | none =>
    cases hstop : d.stop with
    | some u =>
      have hlabelled : Labelled (q ++ u.char :: t) r := by simpa [hquote, hstop, textOf] using h
      refine absurd hlabelled (hq.not_labelled_append (fun v hv => ?_) r)
      obtain rfl : u.char = v := by simpa using hv
      rcases eq_of_isStop u.isStop with h | h | h <;> rw [h] <;> decide
    | none =>
      have hlabelled : Labelled (q ++ t) r := by simpa [hquote, hstop, textOf] using h
      exact ⟨rfl, rfl, hq.isLabelWord_of_labelled ht hlabelled⟩

theorem dropLabel_line (hq : Plain q) : dropLabel (d.line q) = d.line q := by
  refine dropLabel_of_not_labelled fun r h => ?_
  obtain ⟨-, -, -, y, -, hy⟩ := isLabelWord_of_labelled_line (d := d) (t := []) (r := r) hq
    (by simp) (by simpa using h)
  simp at hy

theorem endsLine_tail (d : Decoration) : EndsLine d.tail := by
  unfold tail
  cases d.below with
  | none => exact .inl rfl
  | some f => exact .inr ⟨f.lineEnd, _, rfl⟩

/-- A colon that comes first behind the line stands in the text below it. -/
theorem colon_of_tail_eq {y : List Char} (hy : ∀ v ∈ y, isBlank v = true)
    (h : d.tail = y ++ ':' :: r) :
    ∃ f ∈ d.below, ∃ y r, (∀ u ∈ y, isBlank u = true) ∧ dropFences f.text = y ++ ':' :: r := by
  unfold tail at h
  cases hbelow : d.below with
  | none => simp [hbelow, textOf] at h
  | some f =>
    replace h : f.lineEnd.text ++ dropFences f.text = y ++ ':' :: r := by
      simpa [hbelow, textOf] using h
    refine ⟨f, rfl, ?_⟩
    rcases List.append_eq_append_iff.mp h with ⟨z, rfl, hz⟩ | ⟨z, hz, hcolon⟩
    · exact ⟨z, r, (List.forall_mem_append.mp hy).2, hz⟩
    · rcases List.append_eq_cons_iff.mp hcolon.symm with ⟨rfl, hfences⟩ | ⟨z, rfl, -⟩
      · exact ⟨[], r, by simp, hfences⟩
      · have hblank := f.lineEnd.isBlank_of_mem ':' (by simp [hz])
        exact absurd hblank (by decide)

/-- Without code fences and the label the line comes first. -/
theorem dropLabel_around (hq : Plain q) (hd : ¬ d.ReadsAsLabel q) :
    ∃ t, EndsLine t ∧ dropLabel (trim (dropFences (d.around q))) = d.line q ++ t := by
  obtain ⟨⟨hne, -⟩, hhead, hlast⟩ := edges_line (d := d) hq
  have hlead : ∀ u ∈ textOf (fun f => f.lineEnd.text) d.opening, isBlank u = true := by
    cases d.opening with
    | none => simp [textOf]
    | some f => exact f.lineEnd.isBlank_of_mem
  rw [dropFences_around d hq, trim_blanks_append hlead]
  cases hechoed : d.echoed with
  | none =>
    refine ⟨trimEnd d.tail, d.endsLine_tail.trimEnd, ?_⟩
    rw [textOf, Option.elim_none, List.nil_append, trim_append hne hhead hlast]
    refine dropLabel_of_not_labelled fun r h => hd ?_
    obtain ⟨hquote, hstop, hword, y, hy, htail⟩ :=
      isLabelWord_of_labelled_line hq d.endsLine_tail.trimEnd.isBlank_head? h
    obtain ⟨x, -, hx⟩ := exists_blanks_trimEnd d.tail
    rw [htail, List.append_assoc, List.cons_append] at hx
    exact ⟨hechoed, hquote, hstop, hword, colon_of_tail_eq hy hx⟩
  | some l =>
    have hfirst : ∀ u ∈ (l.text ++ d.line q).head?, isBlank u = false := by
      intro u hu
      rw [EchoedLabel.text, List.append_assoc, List.head?_append_of_ne_nil _ l.isWord.ne_nil] at hu
      exact not_isBlank_of_isAlpha (l.isWord.isAlpha u (List.mem_of_mem_head? hu))
    have hend : ∀ u ∈ (l.text ++ d.line q).getLast?, isBlank u = false := by
      rwa [List.getLast?_append_of_ne_nil _ hne]
    have hlabelled : Labelled (l.text ++ d.line q ++ trimEnd d.tail)
        (l.after ++ (d.line q ++ trimEnd d.tail)) :=
      ⟨l.word, l.before, l.isWord, l.isBlank_before, by simp [EchoedLabel.text]⟩
    refine ⟨trimEnd (trimEnd d.tail), d.endsLine_tail.trimEnd.trimEnd, ?_⟩
    rw [textOf, Option.elim_some, ← List.append_assoc,
      trim_append (List.append_ne_nil_of_right_ne_nil _ hne) hfirst hend,
      dropLabel_of_labelled hlabelled, trim_blanks_append l.isBlank_after,
      trim_append hne hhead hlast]

/-- Without its quotes the line is the text with its stop. -/
theorem dropQuotes_line (hq : Plain q) : dropQuotes (d.line q) = d.stopped q := by
  obtain ⟨hhead, hlast⟩ := edges_stopped (d := d) hq
  have htrim : trim (d.stopped q) = d.stopped q :=
    trim_eq (fun v hv => (hhead v hv).1) fun v hv => (hlast v hv).1
  unfold line
  cases d.quote with
  | none =>
    obtain ⟨u, x, hx⟩ := List.exists_cons_of_ne_nil (stopped_ne_nil (d := d) hq)
    have hquote : isQuote u = false := (hhead u (by simp [hx])).2
    have hwrapped : isWrapped (d.stopped q) = false := by
      rw [hx]
      cases x <;> simp [isWrapped, hquote]
    rw [textOf, Option.elim_none, List.nil_append, List.append_nil, dropQuotes, hwrapped,
      dropFirst_eq_self fun v hv => (hhead v hv).2, dropLast_eq_self fun v hv => (hlast v hv).2]
    exact htrim
  | some k =>
    have hwrapped : isWrapped (k.char :: (d.stopped q ++ [k.char])) = true := by
      obtain ⟨u, x, hx⟩ := List.exists_cons_of_ne_nil (stopped_ne_nil (d := d) hq)
      have hend : (u :: (x ++ [k.char])).getLast? = some k.char := by
        rw [← List.cons_append, List.getLast?_concat]
      simp [hx, isWrapped, k.isQuote, hend]
    simp [textOf, dropQuotes, hwrapped, htrim]

theorem dropStop_stopped (hq : Plain q) : dropStop (d.stopped q) = q := by
  unfold stopped
  cases d.stop with
  | none => simpa [textOf] using hq.dropStop_eq
  | some u =>
    have hstop : (u.char == '.' || u.char == ';' || u.char == ',') = true := u.isStop
    simp [textOf, dropStop, dropLast, hstop]

end Decoration

/-- A decorated text has the normal form of the text and is screened like it, unless the decoration
makes a label of it. -/
theorem normalize_around {d : Decoration} (hne : q ≠ []) (hself : normalize q = q)
    (hd : ¬ d.ReadsAsLabel q) :
    normalize (d.around q) = q ∧ screen (.ofList (d.around q)) = screen (.ofList q) := by
  have hq : Plain q := plain_of_normalize_eq_self hne hself
  have hnormal : normalize (d.around q) = q := by
    obtain ⟨t, ht, hlabel⟩ := Decoration.dropLabel_around hq hd
    obtain ⟨⟨hline, hbreak⟩, hhead, hlast⟩ := Decoration.edges_line (d := d) hq
    have hinner : dropLabel (d.stopped q) = d.stopped q := by
      simpa [Decoration.line, Decoration.stopped, Decoration.textOf] using
        Decoration.dropLabel_line (d := { d with quote := none }) hq
    rw [normalize]
    simp only [hlabel]
    rw [firstLine_append hline hhead hlast hbreak ht, Decoration.dropLabel_line hq,
      Decoration.dropQuotes_line hq, hinner, Decoration.dropStop_stopped hq, hq.collapseBlanks_eq]
  refine ⟨hnormal, ?_⟩
  simp only [screen, String.toList_ofList, hnormal, hself]

/-- A fence, a label, quotes, a stop, and below them the other fence and one more label. -/
def fullDecoration : Decoration where
  opening := some
    { language := "PromQL".toList, isLanguage := .inr (by decide),
      lineEnd := ⟨[' '], by simp; decide⟩ }
  echoed := some
    { word := "Query".toList, isWord := ⟨"query", by decide⟩, before := [' '], after := ['\n'],
      isBlank_before := List.all_eq_true.mp (by decide),
      isBlank_after := List.all_eq_true.mp (by decide) }
  quote := some ⟨'\x60', by decide⟩
  stop := some ⟨';', by decide⟩
  below := some ⟨⟨[], by simp⟩, "\x60\x60\x60\nquery: b".toList⟩

theorem normalize_around_fullDecoration :
    String.ofList (fullDecoration.around "up".toList) =
        "\x60\x60\x60PromQL \nQuery :\n\x60up;\x60\n\x60\x60\x60\nquery: b" ∧
      normalize "up".toList = "up".toList ∧
      normalize (fullDecoration.around "up".toList) = "up".toList ∧
      screen (.ofList (fullDecoration.around "up".toList)) = screen (.ofList "up".toList) := by
  have hself : normalize "up".toList = "up".toList := by decide +kernel
  have hlabel : ¬ fullDecoration.ReadsAsLabel "up".toList :=
    fun h => absurd h.no_label (by simp [fullDecoration])
  exact ⟨by decide +kernel, hself, normalize_around (by decide) hself hlabel⟩

/-- Nothing but a line below that begins with a colon. -/
def colonBelow : Decoration where
  opening := none
  echoed := none
  quote := none
  stop := none
  below := some ⟨⟨[], by simp⟩, ": up".toList⟩

/-- A word of a label with a colon below it is gone. -/
theorem normalize_around_colonBelow :
    "query".toList ≠ [] ∧ normalize "query".toList = "query".toList ∧
      String.ofList (colonBelow.around "query".toList) = "query\n: up" ∧
      normalize (colonBelow.around "query".toList) = "up".toList := by
  decide +kernel

end

end AskMetrics.Query
