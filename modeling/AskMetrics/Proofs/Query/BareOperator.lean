import AskMetrics.Proofs.Query.Outside
import AskMetrics.Proofs.Query.Window
import AskMetrics.Proofs.Text.Found

/-!
# What follows an operator

An aggregation operator with blanks after it needs a round bracket or a grouping keyword there. The
check for that takes each operator together with the whole word after the blanks, and goes on behind
that word. So an accepted query has no bare operator but perhaps inside such a word: in
`sum (sum x)` the second operator is part of the word after the first one, and nothing looks at it.
-/
namespace AskMetrics.Query

open AskMetrics.Text

/-- What an aggregation operator needs behind the blanks after it: a round bracket or a grouping
keyword. -/
def Continues (a : List Char) : Prop :=
  a.head? = some '(' ∨ ∃ k ∈ groupingKeywords, a.takeWhile isNameChar = k.toList

/-- The place after `s` lies inside the word that follows an operator and blanks. -/
def EndsInNextWord (s : List Char) : Prop :=
  ∃ x y z : List Char, ∃ w ∈ checkedOperators, s = x ++ (w.toList ++ (y ++ z)) ∧ Opens x.reverse ∧
    y ≠ [] ∧ (∀ u ∈ y, isBlank u = true) ∧ z ≠ [] ∧ ∀ u ∈ z, isBlank u = false

theorem ne_nil_of_mem_checkedOperators : ∀ w ∈ checkedOperators, w.toList ≠ [] := by
  decide

/-- An operator begins with a letter. -/
theorem exists_head?_operator_append {w : String} (hw : w ∈ checkedOperators) (a : List Char) :
    ∃ c ∈ (w.toList ++ a).head?, isNameChar c = true := by
  obtain ⟨c, x, hx⟩ := List.exists_cons_of_ne_nil (ne_nil_of_mem_checkedOperators w hw)
  exact ⟨c, by simp [hx], isNameChar_of_mem_checkedOperators w hw c (by simp [hx])⟩

/-- No operator is a grouping keyword. -/
theorem not_mem_groupingKeywords : ∀ w ∈ checkedOperators, w ∉ groupingKeywords := by
  decide

section
variable {b a : List Char}

/-- What makes the check pass a match over. -/
theorem continues_of_passed {m : Match} (h : (m.part 1).head? == some '(' ∨
    ¬ (((m.part 1).takeWhile isNameChar != "by".toList) = true ∧
      ((m.part 1).takeWhile isNameChar != "without".toList) = true)) : Continues (m.part 1) := by
  rcases h with hopen | hword
  · exact .inl (by simpa using hopen)
  · right
    by_cases hby : (m.part 1).takeWhile isNameChar = "by".toList
    · exact ⟨"by", by decide, hby⟩
    · refine ⟨"without", by decide, ?_⟩
      by_contra hwithout
      exact hword ⟨bne_iff_ne.mpr hby, bne_iff_ne.mpr hwithout⟩

theorem continues_of_mem_findAll {s : List Char} (h : hasBareAggregation s = false) {m : Match}
    (hm : m ∈ findAll operatorThenWord s) : Continues (m.part 1) := by
  have hpassed := List.any_eq_false.mp h m hm
  apply continues_of_passed
  by_cases hopen : (m.part 1).head? == some '('
  · exact .inl hopen
  · right
    simpa [hopen] using hpassed

/-- Whether an operator continues is a matter of the word up to the next blank. -/
theorem Continues.append {y : List Char} (h : Continues y) (hne : y ≠ [])
    (ha : ∀ u ∈ a.head?, isBlank u = true) : Continues (y ++ a) := by
  rcases h with hopen | ⟨k, hk, hword⟩
  · left
    rw [List.head?_append_of_ne_nil _ hne, hopen]
  · right
    refine ⟨k, hk, ?_⟩
    by_cases hall : ∀ u ∈ y, isNameChar u = true
    · rw [takeWhile_append_eq hall fun u hu => isNameChar_of_isBlank (ha u hu), ← hword]
      exact (List.takeWhile_eq_self_iff.mpr hall).symm
    · rw [← hword, List.takeWhile_append, if_neg]
      intro hlength
      have hself := (List.takeWhile_prefix isNameChar).eq_of_length hlength
      exact hall (List.takeWhile_eq_self_iff.mp hself)

/-- An operator by itself does not continue. -/
theorem not_continues_operator {w : String} (hw : w ∈ checkedOperators) : ¬ Continues w.toList := by
  have hname := isNameChar_of_mem_checkedOperators w hw
  rintro (hopen | ⟨k, hk, hword⟩)
  · have := hname '(' (List.mem_of_mem_head? hopen)
    exact absurd this (by decide)
  · rw [List.takeWhile_eq_self_iff.mpr hname] at hword
    exact not_mem_groupingKeywords w hw (String.toList_injective hword ▸ hk)

end

/-! ## The check -/

section
variable {b a s : List Char} {w : String} {u : Char}

/-- A name character in a word with blanks after it, but the first one, has another one before. -/
theorem isNameChar_of_mem_getLast? {x y z w : List Char} (hw : ∀ v ∈ w, isNameChar v = true)
    (hy : ∀ v ∈ y, isBlank v = true) (h : x ++ z = w ++ y) {c : Char} (hc : c ∈ z.head?)
    (hname : isNameChar c = true) : ∀ v ∈ x.getLast?, isNameChar v = true := by
  intro v hv
  have hmem : v ∈ x := List.mem_of_mem_getLast? hv
  rcases List.append_eq_append_iff.mp h with ⟨r, rfl, -⟩ | ⟨r, -, rfl⟩
  · exact hw v (List.mem_append_left _ hmem)
  · have hblank := hy c (List.mem_append_right _ (List.mem_of_mem_head? hc))
    simp [isBlank_of_isNameChar hname] at hblank

/-- Behind the start of an operator with blanks after it, a word can begin at the end of the blanks
or later. -/
theorem eq_or_reads_of_opens {c d e : Cursor} {w x y : List Char}
    (hw : ∀ v ∈ w, isNameChar v = true) (hy : ∀ v ∈ y, isBlank v = true) (he : c.Reads (w ++ y) e)
    (hd : c.Reads x d) (hx : x ≠ []) (hopens : Opens d.behind) {v : Char} (hv : v ∈ d.ahead.head?)
    (hname : isNameChar v = true) : e = d ∨ ∃ z, z ≠ [] ∧ x = w ++ y ++ z ∧ e.Reads z d := by
  rcases hd.split he with ⟨z, hxz, hz⟩ | ⟨z, hxz, hz⟩
  · by_cases hnil : z = []
    · subst hnil
      exact .inl (Cursor.reads_nil_iff.mp hz).symm
    · exact .inr ⟨z, hnil, hxz, hz⟩
  · by_cases hnil : z = []
    · subst hnil
      exact .inl (Cursor.reads_nil_iff.mp hz)
    · -- inside the operator and its blanks no word begins
      have hhead : v ∈ z.head? := by
        rwa [hz.ahead, List.head?_append_of_ne_nil _ hnil] at hv
      have hlast := isNameChar_of_mem_getLast? hw hy hxz.symm hhead hname
      obtain ⟨r, u, rfl⟩ : ∃ r u, x = r ++ [u] :=
        ⟨x.dropLast, x.getLast hx, (List.dropLast_append_getLast hx).symm⟩
      have hclosed := hopens u (by simp [hd.behind])
      rw [isWord_of_isNameChar (hlast u (by simp))] at hclosed
      exact absurd hclosed (by decide)

/-- An operator that lies in a match was looked at as the word after another operator, or it stands
further on in that word. -/
theorem endsInNextWord_of_covers (hcheck : hasBareAggregation s = false) (hopens : Opens b)
    (hw : w ∈ checkedOperators) (hu : isBlank u = true) {m : Match}
    (hm : m ∈ findAll operatorThenWord s) (hcovers : m.Covers ⟨b, w.toList ++ u :: a⟩) :
    EndsInNextWord b.reverse := by
  obtain ⟨x, r, hx, -, hread, hrest⟩ := hcovers
  obtain ⟨b', a', -, hplace, hmatch⟩ := exists_matchAt_of_mem_findAll hm
  rw [hplace] at hread
  obtain ⟨e, he, hword, -, hsolid, hafter⟩ := exists_of_matchAt_operatorThenWord hmatch
  obtain ⟨hedge, w', hw', v, t, hv, ht, hblanks⟩ := mem_ends_operatorThenBlanks.mp he
  have hvt : ∀ c ∈ v :: t, isBlank c = true := List.forall_mem_cons.mpr ⟨hv, ht⟩
  have hname := isNameChar_of_mem_checkedOperators w hw
  obtain ⟨c, hc, hcname⟩ := exists_head?_operator_append hw (u :: a)
  rcases eq_or_reads_of_opens (isNameChar_of_mem_checkedOperators w' hw') hvt hblanks hread hx
    hopens hc hcname with rfl | ⟨z, hz, hxz, hreadz⟩
  · -- the operator is the word that was looked at, and it is bare
    obtain ⟨heq, -⟩ := eq_of_append_eq_append (p := fun c => !isBlank c)
      (fun c hc => by simp [isBlank_of_isNameChar (hname c hc)]) hsolid (by simpa using hu) hafter
      hword.ahead
    have hcontinues := continues_of_mem_findAll hcheck hm
    rw [← heq] at hcontinues
    exact absurd hcontinues (not_continues_operator hw)
  · have hpart : m.part 1 = z ++ r :=
      List.append_cancel_right (hword.ahead.symm.trans (hreadz.trans hrest).ahead)
    have hopens' : Opens b' := by
      obtain ⟨c', hc', hcname'⟩ := exists_head?_operator_append hw' (v :: t ++ e.ahead)
      refine opens_of_atEdge hedge (u := c') ?_ hcname'
      rwa [show a' = _ from hblanks.ahead, List.append_assoc]
    have hbehind : b = x.reverse ++ b' := hread.behind
    refine ⟨b'.reverse, v :: t, z, w', hw', ?_, by simpa using hopens', by simp, hvt, hz, ?_⟩
    · rw [hbehind, hxz, List.reverse_append, List.reverse_reverse]
      simp
    · intro c hc
      simpa using hsolid c (by rw [hpart]; exact List.mem_append_left _ hc)

/-- What the check on bare operators says about an operator with a blank after it, in a text that
does not end in a blank. -/
theorem continues_of_not_hasBareAggregation (hcheck : hasBareAggregation s = false)
    (hlast : ∀ v ∈ s.getLast?, isBlank v = false) (hs : s = b.reverse ++ (w.toList ++ u :: a))
    (hw : w ∈ checkedOperators) (hopens : Opens b) (hu : isBlank u = true)
    (hfree : ¬ EndsInNextWord b.reverse) : Continues (a.dropWhile isBlank) := by
  obtain ⟨x, r, ha, hx, hr⟩ := exists_run isBlank a
  obtain ⟨y, t, hrest, hy, ht⟩ := exists_run (fun v => !isBlank v) r
  -- the text does not end in blanks, so there is a word after them
  have hne : y ≠ [] := by
    rintro rfl
    obtain rfl : r = t := hrest
    obtain rfl : r = [] := by
      cases r with
      | nil => rfl
      | cons v r =>
        have hv := ht v rfl
        simp [hr v rfl] at hv
    have hall : ∀ v ∈ u :: a, isBlank v = true := by
      rw [ha, List.append_nil]
      exact List.forall_mem_cons.mpr ⟨hu, hx⟩
    have hmem : (u :: a).getLast (by simp) ∈ s.getLast? := by
      rw [hs, List.getLast?_append_of_ne_nil _ (by simp), List.getLast?_append_cons]
      exact List.getLast?_eq_some_getLast _
    have hnot := hlast _ hmem
    simp [hall _ (List.getLast_mem (by simp))] at hnot
  have hedge : Cursor.atEdge ⟨b, w.toList ++ u :: a⟩ = true := by
    obtain ⟨c, hc, hname⟩ := exists_head?_operator_append hw (u :: a)
    obtain ⟨z, hz⟩ := List.head?_eq_some_iff.mp hc
    rw [hz]
    exact atEdge_of_opens hopens hname
  have hd : ⟨(w.toList ++ u :: x).reverse ++ b, r⟩ ∈
      operatorThenBlanks.ends ⟨b, w.toList ++ u :: a⟩ := by
    refine mem_ends_operatorThenBlanks.mpr ⟨hedge, w, hw, u, x, hu, hx, ?_, rfl⟩
    simp [ha]
  have hread : Cursor.Reads ⟨(w.toList ++ u :: x).reverse ++ b, r⟩ y
      ⟨y.reverse ++ ((w.toList ++ u :: x).reverse ++ b), t⟩ := ⟨hrest, rfl⟩
  obtain ⟨m, hm, hpart, -⟩ := matchAt_operatorThenWord hd hread hne hy ht
  rw [ha, dropWhile_append_eq hx hr]
  rcases mem_findAll_or_covers length_lt_of_matchAt_operatorThenWord hs hm with hmem | ⟨m', hm', hc⟩
  · have hcontinues := continues_of_mem_findAll hcheck hmem
    rw [hpart] at hcontinues
    rw [hrest]
    exact hcontinues.append hne (by simpa using ht)
  · exact absurd (endsInNextWord_of_covers hcheck hopens hw hu hm' hc) hfree

end

/-! ## Accepted queries -/

/-- Masking keeps what an operator needs after it. -/
theorem Continues.of_maskFrom {a : List Char} (h : Continues (maskFrom .outside a)) :
    Continues a := by
  have hname : (maskFrom .outside a).takeWhile isNameChar = a.takeWhile isNameChar :=
    takeWhile_maskFrom (fun _ => isQuote_of_isNameChar) a
  unfold Continues at h ⊢
  rwa [head?_maskFrom_outside, hname] at h

/-- In an accepted query an operator outside literals that begins a word, with a blank after it, is
followed by a round bracket or a grouping keyword behind all blanks, unless it stands inside the
word after another operator. -/
theorem accepted_operator_continues {raw : String} {q : CheckedQuery}
    (h : validate raw = .ok q ∨ screen raw = .ok (.query q)) {b a : List Char} {w : String}
    {u : Char} (hq : q.text.toList = b ++ (w.toList ++ u :: a)) (hw : w ∈ checkedOperators)
    (houtside : Quoting.outside.after b = .outside) (hopens : Opens b.reverse)
    (hu : isBlank u = true) (hfree : ¬ EndsInNextWord (mask b)) :
    Continues (a.dropWhile isBlank) := by
  obtain ⟨hpasses, rfl⟩ := passes_of_accepted h
  rw [CheckedQuery.toList_text_ofText] at hq
  generalize hs : normalize raw.toList = s at hq hpasses
  have hspaced : Spaced s := by
    subst hs
    exact hpasses.wellFormed.spaced
  have hlast : ∀ v ∈ (mask s).getLast?, isBlank v = false := by
    rw [getLast?_mask hpasses.closed]
    exact hspaced.getLast?_not_blank
  have hplain : ∀ v ∈ w.toList ++ [u], isQuote v = false := by
    rw [List.forall_mem_append]
    refine ⟨fun v hv => isQuote_of_isNameChar (isNameChar_of_mem_checkedOperators w hw v hv), ?_⟩
    simpa using isQuote_of_isBlank hu
  have hmask : mask s = (mask b).reverse.reverse ++ (w.toList ++ u :: maskFrom .outside a) := by
    have hword := mask_outside (a := a) houtside hplain
    rw [hq, List.reverse_reverse]
    simpa using hword
  have hcheck : hasBareAggregation (mask s) = false :=
    hpasses.shapes .bareAggregation (by decide)
  have hcontinues := continues_of_not_hasBareAggregation hcheck hlast hmask hw
    (opens_mask houtside hopens) hu (by simpa using hfree)
  rw [dropWhile_maskFrom fun _ => isQuote_of_isBlank] at hcontinues
  exact hcontinues.of_maskFrom

/-- A query with an operator in a literal and one outside. -/
def hitsPerNode : CheckedQuery where
  text := "node_total\x7bjob=\"sum x\"\x7d / sum by (job) (http_hits)"
  metrics := ["node_total", "http_hits"]

theorem accepted_operator_continues_hitsPerNode :
    validate hitsPerNode.text = .ok hitsPerNode ∧
      hitsPerNode.text.toList = "node_total\x7bjob=\"sum x\"\x7d / ".toList ++
        ("sum".toList ++ ' ' :: "by (job) (http_hits)".toList) ∧
      Continues ("by (job) (http_hits)".toList.dropWhile isBlank) := by
  have haccepted : validate hitsPerNode.text = .ok hitsPerNode := by decide +kernel
  have htext : hitsPerNode.text.toList = "node_total\x7bjob=\"sum x\"\x7d / ".toList ++
      ("sum".toList ++ ' ' :: "by (job) (http_hits)".toList) := by
    decide +kernel
  have hopens : Opens "node_total\x7bjob=\"sum x\"\x7d / ".toList.reverse :=
    opens_iff_all.mpr (by decide +kernel)
  refine ⟨haccepted, htext, accepted_operator_continues (.inl haccepted) htext (by decide)
    (by decide +kernel) hopens (by decide) ?_⟩
  -- a blank is before the operator, so it is not inside a word
  rintro ⟨x, y, z, w, -, hsplit, -, -, -, hz, hsolid⟩
  have hlast : (mask "node_total\x7bjob=\"sum x\"\x7d / ".toList).getLast? = some ' ' := by
    decide +kernel
  rw [hsplit, ← List.append_assoc, ← List.append_assoc, List.getLast?_append_of_ne_nil _ hz] at hlast
  exact absurd (hsolid ' ' (List.mem_of_mem_getLast? hlast)) (by decide)

/-- An operator inside the word after another one may be bare. -/
theorem validate_innerBare :
    validate "sum (sum x)" = .ok ⟨"sum (sum x)", []⟩ ∧
      "sum (sum x)".toList = "sum (".toList ++ ("sum".toList ++ ' ' :: "x)".toList) ∧
      Quoting.outside.after "sum (".toList = .outside ∧ Opens "sum (".toList.reverse ∧
      ¬ Continues ("x)".toList.dropWhile isBlank) := by
  refine ⟨by decide +kernel, by decide +kernel, by decide +kernel, ?_, ?_⟩
  · exact opens_iff_all.mpr (by decide +kernel)
  · unfold Continues
    decide +kernel

end AskMetrics.Query
