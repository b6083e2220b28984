import AskMetrics.Proofs.Redaction.Leads

/-!
# Bare values

What introduces a value can stand in a redacted text, too: with the marker behind it. A value is
*bare* when it is something else, or when a plural s stands before it. The first two rules take
away what is bare. Then no rule brings it back, though each puts in markers that could end a value
or come to stand where one is looked for.
-/
namespace AskMetrics.Redaction

open AskMetrics.Text

/-- The marker, with no character of the class `f` behind it. -/
def Marked (f : Char → Bool) (v : List Char) : Prop :=
  ∃ t, v = marker ++ t ∧ ∀ u ∈ t.head?, f u = false

/-- What introduces a value, with one that begins in the class `f` behind it. The value is not
the marker, or there is a plural s before it. -/
def Bare (Lead : List Char → List Char → Prop) (f : Char → Bool) (a : List Char) : Prop :=
  ∃ l p v, a = l ++ v ∧ Lead l p ∧ (∃ u ∈ v.head?, f u = true) ∧ ¬ (p = [] ∧ Marked f v)

/-! ## How matches begin -/

section
variable {rule : Rule} {c : Cursor} {m : Match} {u v : Char} {a b t : List Char}

/-- How the matches of the later rules begin, and what replaces them. -/
theorem exists_heads_of_mem_laterRules (h : rule ∈ laterRules)
    (hm : matchAt rule.parts c = some m) :
    ∃ u ∈ c.ahead.head?, u ∈ "?&bBAe".toList ∧ ∃ v ∈ (rule.replacement m).head?,
      v ∈ "?&B[".toList ∧ (v = u ∨ u.isAlpha = true) := by
  have hmarker : '[' ∈ marker.head? := by decide
  simp only [laterRules, List.mem_cons, List.not_mem_nil, or_false] at h
  rcases h with rfl | rfl | rfl | rfl
  · obtain ⟨l, v, hparts⟩ := exists_addressMatch hm
    obtain ⟨-, u, name, rfl, hu, -⟩ := hparts.lead
    rw [hparts.ahead, hparts.replacement]
    refine ⟨u, rfl, ?_, u, rfl, ?_, .inl rfl⟩ <;> rcases hu with rfl | rfl <;> decide
  · obtain ⟨-, w, x, y, hw, -, -, -, hread⟩ :=
      mem_ends_bearerPattern.mp (mem_ends_of_matchAt_singleton hm)
    obtain ⟨u, s, rfl, hu, -⟩ := hw.exists_cons
    refine ⟨u, by rw [hread.ahead]; rfl, ?_, 'B', rfl, by decide, .inr ?_⟩ <;>
      rcases hu with rfl | rfl <;> decide
  · obtain ⟨-, x, ⟨key, rfl, -⟩, hread⟩ :=
      mem_ends_keyPattern.mp (mem_ends_of_matchAt_singleton hm)
    exact ⟨'A', by rw [hread.ahead]; rfl, by decide, '[', hmarker, by decide, .inr (by decide)⟩
  · obtain ⟨-, x, ⟨header, payload, signature, rfl, -⟩, hread⟩ :=
      mem_ends_webPattern.mp (mem_ends_of_matchAt_singleton hm)
    exact ⟨'e', by rw [hread.ahead]; rfl, by decide, '[', hmarker, by decide, .inr (by decide)⟩

/-- A match begins with the character that its replacement begins with, or with a letter. -/
theorem exists_heads (h : rule ∈ rules) (hm : matchAt rule.parts c = some m) :
    ∃ u ∈ c.ahead.head?, ∃ v ∈ (rule.replacement m).head?, v = u ∨ u.isAlpha = true := by
  rcases List.mem_cons.mp h with rfl | h
  · obtain ⟨name, p, x, v, hparts⟩ := exists_namedMatch hm
    obtain ⟨u, y, rfl, -⟩ := hparts.named.exists_cons (by decide)
    rw [hparts.ahead, hparts.replacement]
    exact ⟨u, rfl, u, rfl, .inl rfl⟩
  · obtain ⟨u, hu, -, v, hv, -, hheads⟩ := exists_heads_of_mem_laterRules h hm
    exact ⟨u, hu, v, hv, hheads⟩

/-- No match starts inside a word. -/
theorem matchAt_inside_eq_none (h : rule ∈ rules) (hu : isNameChar u = true)
    (hv : isNameChar v = true) : matchAt rule.parts ⟨u :: b, v :: a⟩ = none := by
  have hinside : Cursor.atEdge ⟨u :: b, v :: a⟩ = false := not_atEdge_inside hu hv
  rw [Option.eq_none_iff_forall_ne_some]
  intro m hm
  have hedge : Cursor.atEdge ⟨u :: b, v :: a⟩ = true := by
    simp only [rules, List.mem_cons, List.not_mem_nil, or_false] at h
    rcases h with rfl | rfl | rfl | rfl | rfl
    · obtain ⟨_, _, _, _, hparts⟩ := exists_namedMatch hm
      exact hparts.edge
    · obtain ⟨l, _, hparts⟩ := exists_addressMatch hm
      obtain ⟨-, mark, name, rfl, hmark, -⟩ := hparts.lead
      obtain ⟨rfl, -⟩ := List.cons.inj hparts.ahead
      rcases hmark with rfl | rfl <;> exact absurd hv (by decide)
    · exact (mem_ends_bearerPattern.mp (mem_ends_of_matchAt_singleton hm)).1
    · exact (mem_ends_keyPattern.mp (mem_ends_of_matchAt_singleton hm)).1
    · exact (mem_ends_webPattern.mp (mem_ends_of_matchAt_singleton hm)).1
  simp [hinside] at hedge

/-- No match starts in the marker. -/
theorem along_marker (h : rule ∈ rules) :
    Along (fun b a => matchAt rule.parts ⟨b, a⟩ = none) b marker a := by
  have hmarker : marker = '[' :: ("REDACTED".toList ++ [']']) := by decide
  have hword : ∀ u ∈ "REDACTED".toList, isNameChar u = true := List.all_eq_true.mp (by decide)
  have hbracket : ∀ {u} (b a), isShut u = true → matchAt rule.parts ⟨b, u :: a⟩ = none :=
    fun b a hu => matchAt_eq_none h (opensSecret_of_isShut hu a)
  rw [hmarker, along_cons, along_append]
  exact ⟨hbracket _ _ (by decide), along_word hword (matchAt_eq_none h rfl)
    fun _ _ _ _ hu hv => matchAt_inside_eq_none h hu hv, hbracket _ _ (by decide), along_nil⟩

variable {f : Char → Bool}

/-- A text that does not go on in a class with all letters does not when it is rewritten. -/
theorem head_of_rewrites (h : rule ∈ rules) (hf : ∀ u, u.isAlpha = true → f u = true)
    (hrewrites : Rewrites rule.parts rule.replacement c t) (hc : ∀ u ∈ c.ahead.head?, f u = false) :
    ∀ u ∈ t.head?, f u = false := by
  cases hrewrites with
  | done b => simp
  | skip _ _ => simpa using hc
  | hit hm _ _ =>
    obtain ⟨u, hu, v, hv, heads⟩ := exists_heads h hm
    obtain ⟨y, hy⟩ := List.head?_eq_some_iff.mp hv
    have hno := hc u hu
    simp only [hy, List.cons_append, List.head?_cons, Option.mem_some_iff, forall_eq']
    rcases heads with rfl | halpha
    · exact hno
    · simp [hf u halpha] at hno

/-! ## Values before a match -/

/-- A value that is bare when a match behind is replaced was bare before, unless what introduces it
reaches into the replacement. -/
theorem Bare.of_replaced {Lead : List Char → List Char → Prop} {y : List Char}
    (hbare : Bare Lead f (y ++ (rule.replacement m ++ t))) (h : rule ∈ rules)
    (hf : ∀ u, u.isAlpha = true → f u = true) (hm : matchAt rule.parts c = some m)
    (hy : c.behind = y.reverse ++ b)
    (hreach : ∀ l p v, Lead (y ++ l) p → l ≠ [] → rule.replacement m ++ t = l ++ v →
      (∃ u ∈ v.head?, f u = true) → p = [] ∧ Marked f v) :
    Bare Lead f (y ++ c.ahead) := by
  obtain ⟨l, p, v, heq, hlead, hvalue, hnot⟩ := hbare
  obtain ⟨w, rfl, rfl⟩ : ∃ w, y = l ++ w ∧ v = w ++ (rule.replacement m ++ t) := by
    rcases List.append_eq_append_iff.mp heq with ⟨w, rfl, hw⟩ | hsplit
    · by_cases hne : w = []
      · subst hne
        exact ⟨[], by simp, by simpa using hw.symm⟩
      · exact absurd (hreach w p v hlead hne hw hvalue) hnot
    · exact hsplit
  obtain ⟨u, hu, v, hv, heads⟩ := exists_heads h hm
  obtain ⟨a, ha⟩ := List.head?_eq_some_iff.mp hu
  obtain ⟨r, hr⟩ := List.head?_eq_some_iff.mp hv
  refine ⟨l, p, w ++ c.ahead, by simp, hlead, ?_, ?_⟩
  · cases w with
    | nil =>
      have hstart : f v = true := by simpa [hr] using hvalue
      refine ⟨u, by simp [ha], ?_⟩
      rcases heads with rfl | halpha
      · exact hstart
      · exact hf u halpha
    | cons k w => simpa using hvalue
  · rintro ⟨rfl, s, hsplit, hs⟩
    -- the marker ends before the match: none starts in it
    obtain ⟨z, rfl, rfl⟩ : ∃ z, w = marker ++ z ∧ s = z ++ c.ahead := by
      rcases List.append_eq_append_iff.mp hsplit with ⟨z, hmarker, hahead⟩ | hsplit
      · cases z with
        | nil => exact ⟨[], by simpa using hmarker.symm, by simpa using hahead.symm⟩
        | cons k z =>
          have hnone := along_iff_forall.mp (along_marker h (b := l.reverse ++ b) (a := s)) w k z
            hmarker
          have hplace : c = ⟨w.reverse ++ (l.reverse ++ b), k :: (z ++ s)⟩ := by
            obtain ⟨behind, ahead⟩ := c
            simp only [Cursor.mk.injEq]
            exact ⟨by simpa using hy, hahead⟩
          rw [← hplace, hm] at hnone
          cases hnone
      · exact hsplit
    refine hnot ⟨rfl, z ++ (rule.replacement m ++ t), by simp, ?_⟩
    cases z with
    | nil =>
      have hno : f u = false := by simpa [ha] using hs
      simp only [hr, List.nil_append, List.cons_append, List.head?_cons, Option.mem_some_iff,
        forall_eq']
      rcases heads with rfl | halpha
      · exact hno
      · simp [hf u halpha] at hno
    | cons k z => simpa using hs

end

/-! ## What introduces a named credential -/

section
variable {rule : Rule} {c : Cursor} {m : Match} {f : Char → Bool} {u k : Char}
  {a b t l l' p p' v v' w x y r : List Char}

theorem isValueChar_of_isAlpha (h : u.isAlpha = true) : isValueChar u = true := by
  have hblank : isBlank u = false :=
    isBlank_of_isNameChar (isNameChar_of_isAlpha h)
  have hne : ∀ v, v.isAlpha = false → u ≠ v := by
    rintro v hv rfl
    simp [h] at hv
  simp [isValueChar, hblank, hne '"' (by decide), hne '\'' (by decide), hne '&' (by decide),
    hne ',' (by decide), hne ';' (by decide)]

/-- A character of a value is one of a parameter's value. -/
theorem isParameterChar_of_isValueChar (h : isValueChar u = true) : isParameterChar u = true := by
  simp only [isValueChar, isParameterChar, Bool.and_eq_true] at h ⊢
  refine ⟨h.1, ?_⟩
  have hmem := h.2
  simp at hmem ⊢
  tauto

namespace NamedLead

theorem exists_head (h : NamedLead l p) : ∃ u ∈ l.head?, u.isAlpha = true ∧ u ≠ 'R' := by
  obtain ⟨name, x, rfl, hname, ⟨u, hu, halpha⟩, -⟩ := h
  obtain ⟨v, y, rfl, name, hmem, letter, hletter, hsame⟩ := hname.exists_cons (by decide)
  obtain rfl : v = u := by simpa using hu
  refine ⟨v, rfl, halpha, ?_⟩
  rintro rfl
  have hnone :
      (credentialNames.all fun name => name.toList.head?.all (!sameLetter · 'R')) = true := by
    decide
  have hno := List.all_eq_true.mp hnone name hmem
  simp [Option.mem_def.mp hletter, hsame] at hno

/-- What a later rule puts in begins with no character of it. -/
theorem not_mem (h : NamedLead l p) (hu : u ∈ "?&B[".toList) : u ∉ l := by
  have hmarks : u = '?' ∨ u = '&' ∨ u = 'B' ∨ u = '[' := by simpa using hu
  obtain ⟨name, x, rfl, hname, -, hplural, hx⟩ := h
  simp only [List.mem_append, not_or]
  refine ⟨?_, fun hmem => ?_, fun hmem => ?_⟩
  · rcases hmarks with rfl | rfl | rfl | rfl <;> exact hname.not_mem (by decide)
  · rcases hplural with rfl | ⟨s, rfl, hsame⟩
    · simp at hmem
    · obtain rfl := List.mem_singleton.mp hmem
      rcases hmarks with rfl | rfl | rfl | rfl <;> exact absurd hsame (by decide)
  · have hsep := hx.isSeparating.2 u hmem
    rcases hmarks with rfl | rfl | rfl | rfl <;> exact absurd hsep (by decide)

/-- There is no separator before a character that is none. -/
theorem isSeparating_of_append (h : NamedLead (y ++ k :: l) p) (hk : isSeparating k = false) :
    ∀ u ∈ y, isSeparating u = false := by
  obtain ⟨name, x, heq, hname, -, hplural, hx⟩ := h
  rw [← List.append_assoc] at heq
  rcases List.append_eq_append_iff.mp heq with ⟨z, hz, -⟩ | ⟨z, rfl, hz⟩
  · exact fun u hu => isSeparating_plural hname hplural u (hz ▸ List.mem_append_left z hu)
  · cases z with
    | nil =>
      have hsep := hx.isSeparating.2 k (by simpa using hz ▸ List.mem_append_right [] (.head l))
      simp [hk] at hsep
    | cons _ z =>
      have hsep := hx.isSeparating.2 k (by simp [hz])
      simp [hk] at hsep

end NamedLead

theorem Bare.exists_letter (h : Bare NamedLead f a) :
    ∃ u ∈ a.head?, u.isAlpha = true ∧ u ≠ 'R' := by
  obtain ⟨l, p, v, rfl, hlead, -⟩ := h
  obtain ⟨u, hu, hletter⟩ := hlead.exists_head
  obtain ⟨l, rfl⟩ := List.head?_eq_some_iff.mp hu
  exact ⟨u, rfl, hletter⟩

theorem Marked.exists_head (h : Marked f v) (hf : f '[' = true) : ∃ u ∈ v.head?, f u = true := by
  obtain ⟨t, rfl, -⟩ := h
  exact ⟨'[', rfl, hf⟩

/-- No bare value comes from a name and an assignment with the marker behind them. -/
theorem absentAlong_assignment {At : List Char → Prop} (hw : ∀ u ∈ w, isSeparating u = false)
    (hlast : ∀ u ∈ w.getLast?, sameLetter 's' u = false) (hx : IsAssignment x)
    (hr : Marked isValueChar r) : AbsentAlong At (Bare NamedLead isValueChar) b (w ++ x) r := by
  rw [AbsentAlong, along_iff_forall]
  rintro y u z hsplit ⟨-, hbare⟩
  rcases List.append_eq_append_iff.mp hsplit with ⟨k, -, rfl⟩ | ⟨k, rfl, hk⟩
  · obtain ⟨v, hv, halpha, -⟩ := hbare.exists_letter
    obtain rfl : u = v := by simpa using hv
    have hsep := hx.isSeparating.2 u (by simp)
    simp [isSeparating_of_isAlpha halpha] at hsep
  · obtain ⟨l, p, v, heq, hlead, hv, hnot⟩ := hbare
    have hahead : l ++ v = k ++ (x ++ r) := by
      rw [← heq, ← List.append_assoc, ← hk, List.cons_append]
    obtain ⟨rfl, rfl⟩ := hlead.eq_of_append hv (fun u hu => hw u (List.mem_append_right y hu))
      (fun u hu => hlast u (by simp [List.getLast?_append, Option.mem_def.mp hu])) hx
      (hr.exists_head (by decide)) hahead
    exact hnot ⟨rfl, hr⟩

/-- What a match is replaced by brings no bare value of a named credential with it. -/
theorem absentAlong_namedLead (h : rule ∈ rules) (hm : matchAt rule.parts c = some m)
    (hrewrites : Rewrites rule.parts rule.replacement m.stop t) :
    AbsentAlong Opens (Bare NamedLead isValueChar) b (rule.replacement m) t := by
  have hmarker : ∀ b, AbsentAlong Opens (Bare NamedLead isValueChar) b marker t := fun b =>
    clearedAlong_marker (fun _ hbare => hbare.exists_letter) b t
  -- behind a match no value goes on, so the marker is all there is
  have hmarked : (∀ u ∈ m.stop.ahead.head?, isValueChar u = false) →
      Marked isValueChar (marker ++ t) := fun hstop =>
    ⟨t, rfl, head_of_rewrites h (fun _ => isValueChar_of_isAlpha) hrewrites hstop⟩
  have hnot : ∀ {u : Char} {a : List Char}, u.isAlpha = false ∨ u ∈ "?&B[".toList →
      ¬ Bare NamedLead isValueChar (u :: a) := by
    rintro u a hu ⟨l, p, v, heq, hlead, -⟩
    obtain ⟨k, hk, halpha, -⟩ := hlead.exists_head
    obtain ⟨l, rfl⟩ := List.head?_eq_some_iff.mp hk
    obtain ⟨rfl, -⟩ := List.cons.inj heq
    rcases hu with hu | hu
    · simp [halpha] at hu
    · exact hlead.not_mem hu (.head _)
  simp only [rules, List.mem_cons, List.not_mem_nil, or_false] at h
  rcases h with rfl | rfl | rfl | rfl | rfl
  · obtain ⟨name, p, x, v, hparts⟩ := exists_namedMatch hm
    rw [hparts.replacement, ← List.append_assoc, AbsentAlong, along_append]
    exact ⟨absentAlong_assignment (isSeparating_credentialName hparts.named)
      (hparts.named.not_plural (by decide)) hparts.assignment (hmarked hparts.stop), hmarker _⟩
  · obtain ⟨l, v, hparts⟩ := exists_addressMatch hm
    obtain ⟨-, u, name, rfl, hu, hname⟩ := hparts.lead
    have hmark : u.isAlpha = false := by rcases hu with rfl | rfl <;> decide
    have hequals : IsAssignment ['='] :=
      ⟨[], [], '=', [], [], rfl, .inl rfl, by simp, .inl rfl, by simp, .inl rfl⟩
    rw [hparts.replacement, List.cons_append, AbsentAlong, along_cons, along_append]
    refine ⟨fun hbare => hnot (.inl hmark) hbare.2, absentAlong_assignment
      (hname.eq_false caseless_isSeparating (by decide)) (hname.not_plural (by decide)) hequals
      (hmarked fun k hk => ?_), hmarker _⟩
    by_contra hvalue
    have hno := hparts.stop k hk
    simp [isParameterChar_of_isValueChar (by simpa using hvalue)] at hno
  · have hsplit : bearerToken.replacement m = "Bearer".toList ++ ([' '] ++ marker) :=
      (by decide : bearerMarker = "Bearer".toList ++ ([' '] ++ marker))
    have hword : ∀ u ∈ "Bearer".toList, isNameChar u = true := List.all_eq_true.mp (by decide)
    rw [hsplit, AbsentAlong, along_append, along_append]
    exact ⟨clearedAlong_word hword (hnot (.inr (by decide))),
      ⟨fun hbare => hnot (.inl (by decide)) hbare.2, along_nil⟩, hmarker _⟩
  · exact hmarker _
  · exact hmarker _

/-- Behind a match a letter begins a word. -/
theorem opens_stop (h : rule ∈ rules) (hm : matchAt rule.parts c = some m) :
    ∀ u ∈ m.stop.ahead.head?, u.isAlpha = true → Opens m.stop.behind := by
  intro u hu halpha
  simp only [rules, List.mem_cons, List.not_mem_nil, or_false] at h
  rcases h with rfl | rfl | rfl | rfl | rfl
  · obtain ⟨_, _, _, _, hparts⟩ := exists_namedMatch hm
    have hno := hparts.stop u hu
    simp [isValueChar_of_isAlpha halpha] at hno
  · obtain ⟨_, _, hparts⟩ := exists_addressMatch hm
    have hno := hparts.stop u hu
    simp [isParameterChar_of_isValueChar (isValueChar_of_isAlpha halpha)] at hno
  · exact opens_of_first_bearerPattern (first_of_matchAt_singleton hm) u hu halpha
  · have hno := not_isAlpha_of_first_keyPattern (first_of_matchAt_singleton hm) u hu
    simp [halpha] at hno
  · have hno := not_isAlpha_of_first_webPattern (first_of_matchAt_singleton hm) u hu
    simp [halpha] at hno

/-- No rule brings a bare value of a named credential back. -/
theorem guarded_namedLead (h : rule ∈ rules) :
    Guarded rule.parts rule.replacement Opens (Bare NamedLead isValueChar) (·.isAlpha = true) where
  nonempty := length_stop_lt h
  nearest _ _ _ hu := opens_cons.mpr (opens_cons.mp hu)
  starts _ hbare := by
    obtain ⟨u, hu, halpha, -⟩ := hbare.exists_letter
    exact ⟨u, hu, halpha⟩
  inside _ _ _ _ hm hrewrites := absentAlong_namedLead h hm hrewrites
  behind _ _ hm := opens_stop h hm
  before c m b y t hm hrewrites _ hy hbare := by
    refine hbare.of_replaced h (fun _ => isValueChar_of_isAlpha) hm hy
      fun l p v hlead hne heq hv => ?_
    obtain ⟨k, l, rfl⟩ := List.exists_cons_of_ne_nil hne
    rcases List.mem_cons.mp h with rfl | hlater
    · -- the text before is a part of the name
      obtain ⟨name, p', x, v', hparts⟩ := exists_namedMatch hm
      have hmarked : Marked isValueChar (marker ++ t) :=
        ⟨t, rfl, head_of_rewrites h (fun _ => isValueChar_of_isAlpha) hrewrites hparts.stop⟩
      obtain ⟨u, z, rfl, -⟩ := hparts.named.exists_cons (by decide)
      have hnamed := isSeparating_credentialName hparts.named
      rw [hparts.replacement] at heq
      obtain ⟨rfl, -⟩ := List.cons.inj heq
      have hsplit : y ++ u :: l ++ v = (y ++ u :: z) ++ (x ++ (marker ++ t)) := by
        rw [List.append_assoc, ← heq]
        simp
      obtain ⟨rfl, rfl⟩ := hlead.eq_of_append hv
        (List.forall_mem_append.mpr ⟨hlead.isSeparating_of_append (hnamed u (.head _)), hnamed⟩)
        (fun w hw => hparts.named.not_plural (by decide) w
          (by rwa [List.getLast?_append_of_ne_nil _ (by simp)] at hw)) hparts.assignment
        (hmarked.exists_head (by decide)) hsplit
      exact ⟨rfl, hmarked⟩
    · obtain ⟨-, -, -, u, hu, hmem, -⟩ := exists_heads_of_mem_laterRules hlater hm
      obtain ⟨r, hr⟩ := List.head?_eq_some_iff.mp hu
      rw [hr] at heq
      obtain ⟨rfl, -⟩ := List.cons.inj heq
      exact absurd (by simp) (hlead.not_mem hmem)

/-! ## What introduces a parameter -/

theorem AddressLead.eq_of_append (h : AddressLead l p) (h' : AddressLead l' p')
    (heq : l ++ v = l' ++ v') : l = l' ∧ v = v' := by
  obtain ⟨-, u, name, rfl, -, hname⟩ := h
  obtain ⟨-, u', name', rfl, -, hname'⟩ := h'
  simp only [List.cons_append, List.append_assoc, List.nil_append] at heq
  obtain ⟨rfl, hrest⟩ := List.cons.inj heq
  have hequals : ∀ {name}, IsNamed parameterNames name → '=' ∉ name := fun hname =>
    hname.not_mem (by decide)
  obtain rfl := eq_of_append_cons_eq (hequals hname) (hequals hname') hrest
  exact ⟨rfl, by simpa using hrest⟩

/-- What a later rule puts in begins with no character behind the mark. -/
theorem AddressLead.not_mem_tail (h : AddressLead l p) (hu : u ∈ "?&B[".toList) : u ∉ l.tail := by
  have hmarks : u = '?' ∨ u = '&' ∨ u = 'B' ∨ u = '[' := by simpa using hu
  obtain ⟨-, mark, name, rfl, -, hname⟩ := h
  rw [List.tail_cons, List.mem_append, not_or]
  rcases hmarks with rfl | rfl | rfl | rfl <;> exact ⟨hname.not_mem (by decide), by decide⟩

theorem Bare.exists_mark (h : Bare AddressLead f a) : ∃ u ∈ a.head?, u = '?' ∨ u = '&' := by
  obtain ⟨l, p, v, rfl, ⟨-, u, name, rfl, hu, -⟩, -⟩ := h
  exact ⟨u, rfl, hu⟩

/-- No value is introduced where there is no mark. -/
theorem absentAlong_of_not_mem {At : List Char → Prop} (hq : '?' ∉ x) (ha : '&' ∉ x) :
    AbsentAlong At (Bare AddressLead f) b x a := by
  refine along_of_next fun u hu b a hbare => ?_
  obtain ⟨v, hv, hmark⟩ := hbare.2.exists_mark
  obtain rfl : u = v := by simpa using hv
  rcases hmark with rfl | rfl
  · exact hq hu
  · exact ha hu

/-- No later rule brings a bare value of a parameter back. -/
theorem guarded_addressLead (h : rule ∈ laterRules) :
    Guarded rule.parts rule.replacement (fun _ => True) (Bare AddressLead isParameterChar)
      (fun _ => True) where
  nonempty := length_stop_lt (.tail _ h)
  nearest _ _ _ _ := trivial
  starts _ hbare := by
    obtain ⟨u, hu, -⟩ := hbare.exists_mark
    exact ⟨u, hu, trivial⟩
  behind _ _ _ _ _ _ := trivial
  inside c m b t hm hrewrites := by
    have hf : ∀ u : Char, u.isAlpha = true → isParameterChar u = true :=
      fun _ hu => isParameterChar_of_isValueChar (isValueChar_of_isAlpha hu)
    have hrule : rule ∈ rules := .tail _ h
    simp only [laterRules, List.mem_cons, List.not_mem_nil, or_false] at h
    rcases h with rfl | rfl | rfl | rfl
    · obtain ⟨l, v, hparts⟩ := exists_addressMatch hm
      have hmarked : Marked isParameterChar (marker ++ t) :=
        ⟨t, rfl, head_of_rewrites hrule hf hrewrites hparts.stop⟩
      obtain ⟨mark, lead, rfl⟩ : ∃ mark lead, l = mark :: lead := by
        obtain ⟨-, mark, name, rfl, -⟩ := hparts.lead
        exact ⟨mark, _, rfl⟩
      have hnot : ∀ u ∈ "?&B[".toList, u ∉ marker → u ∉ lead ++ marker := fun u hu hno =>
        List.not_mem_append (hparts.lead.not_mem_tail hu) hno
      rw [hparts.replacement, List.cons_append]
      refine ⟨?_, absentAlong_of_not_mem (hnot _ (by decide) (by decide))
        (hnot _ (by decide) (by decide))⟩
      rintro ⟨-, l, p, v, heq, hlead', hv, hbare⟩
      have hsplit : l ++ v = mark :: lead ++ (marker ++ t) := by simpa using heq.symm
      obtain ⟨-, rfl⟩ := hlead'.eq_of_append hparts.lead hsplit
      exact hbare ⟨hlead'.1, hmarked⟩
    · exact absentAlong_of_not_mem (x := bearerMarker) (by decide) (by decide)
    · exact absentAlong_of_not_mem (x := marker) (by decide) (by decide)
    · exact absentAlong_of_not_mem (x := marker) (by decide) (by decide)
  before c m b y t hm _ hne hy hbare := by
    refine hbare.of_replaced (.tail _ h)
      (fun _ hu => isParameterChar_of_isValueChar (isValueChar_of_isAlpha hu)) hm hy
      fun l p v hlead hl heq _ => ?_
    obtain ⟨k, l, rfl⟩ := List.exists_cons_of_ne_nil hl
    obtain ⟨w, y, rfl⟩ := List.exists_cons_of_ne_nil hne
    obtain ⟨-, -, -, u, hu, hmem, -⟩ := exists_heads_of_mem_laterRules h hm
    obtain ⟨r, hr⟩ := List.head?_eq_some_iff.mp hu
    rw [hr] at heq
    obtain ⟨rfl, -⟩ := List.cons.inj heq
    exact absurd (by simp) (hlead.not_mem_tail hmem)

end

end AskMetrics.Redaction
