import AskMetrics.Proofs.Query.Check
import AskMetrics.Proofs.Query.Metrics
import AskMetrics.Proofs.Query.Window
import AskMetrics.Service.Pipeline

/-!
# Windows keep metric names

The metrics of a query are looked up after a window has been put into it. Range selectors and the
parts that scrubbing takes out have nothing to do with each other: a selector can stand inside a
literal, matchers or a list of labels, and then goes with them, but it neither ends one nor begins
one. So the scrubbed text of a query with a window is the scrubbed text without it, with other
ranges. In a text of ASCII characters no name is found in a range, since the word in it goes on a
number. A digit of another script would not do: a word behind it counts.
-/
namespace AskMetrics.Query

open AskMetrics.Text

/-! ## Ranges and the three kinds -/

/-- A character that is in no range selector. -/
def OutsideRanges (v : Char) : Prop := v ≠ '[' ∧ v ≠ ']' ∧ isWord v = false

instance (v : Char) : Decidable (OutsideRanges v) :=
  inferInstanceAs (Decidable (v ≠ '[' ∧ v ≠ ']' ∧ isWord v = false))

section
variable {v : Char} {b x x' y a p s t : List Char}

theorem OutsideRanges.ne_of_mem (hv : OutsideRanges v) (h : Ranges x y) : ∀ u ∈ x, u ≠ v :=
  h.forall_left hv.1.symm hv.2.1.symm fun _ hu => ne_of_isWord hu hv.2.2

theorem Ranges.head?_ne (h : Ranges x y) {u : Char} (hu : u ≠ '[') : x.head? ≠ some u := by
  obtain ⟨-, -⟩ := h
  simpa using hu.symm

/-- Other ranges bring no such character in. -/
theorem not_mem_of_exchanged (hv : OutsideRanges v) (h : Exchanged Ranges x x') (hx : v ∉ x) :
    v ∉ x' := by
  have hall := h.forall_mem (P := (· ≠ v)) (fun _ _ hxy => hv.ne_of_mem hxy.symm)
    fun u hu => ne_of_mem_of_not_mem hu hx
  exact fun hmem => hall v hmem rfl

/-- A text that ends in such a character, behind a stretch in which no range begins, is still there
when there are other ranges. -/
theorem exists_closed (hp : '[' ∉ p) (hv : OutsideRanges v)
    (h : Exchanged Ranges (p ++ (x ++ [v]) ++ a) s) :
    ∃ x' a', s = p ++ (x' ++ [v]) ++ a' ∧ Exchanged Ranges x x' ∧
      Exchanged Ranges (p ++ (x ++ [v])) (p ++ (x' ++ [v])) ∧ Exchanged Ranges a a' := by
  simp only [List.append_assoc, List.singleton_append] at h
  obtain ⟨s', rfl, hrest⟩ := h.append_inv steady_ranges fun u hu _ _ hxy =>
    hxy.head?_ne (ne_of_mem_of_not_mem hu hp)
  have hchain : ∀ y z, Ranges y z → y.IsChain fun _ u => u ≠ v := fun y z hyz =>
    (List.pairwise_of_forall_mem_list fun _ _ u hu => hv.ne_of_mem hyz u hu).isChain
  obtain ⟨x', r, rfl, hx, hclose⟩ := hrest.split hchain (by simp)
  obtain ⟨a', rfl, ha⟩ := hclose.cons_inv steady_ranges fun _ _ hxy => hxy.head?_ne hv.1
  exact ⟨x', a', by simp, hx, (Exchanged.refl p).append (hx.append (.refl [v])), ha⟩

/-- No part of a kind starts in a range when all parts of it start with such a character. -/
theorem along_vacant {K : List Char → List Char → Prop} (h : Ranges x y)
    (hK : ∀ b w, K b w → ∃ u ∈ w.head?, OutsideRanges u) : Along (Vacant K) b x a := by
  refine along_of_next fun u hu b a w hw hpre => ?_
  obtain ⟨v, hv, houtside⟩ := hK b w hw
  obtain ⟨r, rfl⟩ := List.head?_eq_some_iff.mp hv
  exact houtside.ne_of_mem h u hu (List.cons_prefix_cons.mp hpre).1.symm

/-! ### Literals -/

theorem lineBody_cons_iff {q u : Char} (hq : u ≠ q) (hb : u ≠ '\\') :
    LineBody q (u :: x) ↔ LineBody q x := by
  constructor
  · intro h
    cases h with
    | char _ _ rest => exact rest
    | escape => exact absurd rfl hb
  · exact .char hq hb

theorem lineBody_escape_iff {q u : Char} :
    LineBody q ('\\' :: u :: x) ↔ u ≠ '\n' ∧ LineBody q x := by
  constructor
  · intro h
    cases h with
    | char _ hb => exact absurd rfl hb
    | escape hc rest => exact ⟨hc, rest⟩
  · rintro ⟨hc, rest⟩
    exact .escape hc rest

theorem lineBody_append_iff {q : Char} (hx : ∀ u ∈ x, u ≠ q ∧ u ≠ '\\') :
    LineBody q (x ++ s) ↔ LineBody q s := by
  induction x with
  | nil => rfl
  | cons u x ih =>
    obtain ⟨hq, hb⟩ := hx u (.head _)
    rw [List.cons_append, lineBody_cons_iff hq hb, ih fun v hv => hx v (.tail _ hv)]

/-- A range is neither here nor there in a body, nor behind a backslash. -/
theorem lineBody_range_iff {q : Char} (hq : OutsideRanges q) (h : Ranges x y) :
    (LineBody q (x ++ s) ↔ LineBody q s) ∧ (LineBody q ('\\' :: (x ++ s)) ↔ LineBody q s) := by
  have hbackslash : OutsideRanges '\\' := by decide
  have hfeed : OutsideRanges '\n' := by decide
  have hx : ∀ u ∈ x, u ≠ q ∧ u ≠ '\\' := fun u hu =>
    ⟨hq.ne_of_mem h u hu, hbackslash.ne_of_mem h u hu⟩
  refine ⟨lineBody_append_iff hx, ?_⟩
  obtain ⟨u, x, rfl⟩ := List.exists_cons_of_ne_nil (steady_ranges.ne_nil h)
  rw [List.cons_append, lineBody_escape_iff,
    lineBody_append_iff fun v hv => hx v (.tail _ hv)]
  exact and_iff_right (hfeed.ne_of_mem h u (.head _))

/-- A body has other ranges and stays a body, and so does one that begins with a backslash. The two
need each other, since the character behind a backslash may begin a range. -/
theorem lineBody_exchanged {q : Char} (hq : OutsideRanges q) (h : Exchanged Ranges s t) :
    (LineBody q s → LineBody q t) ∧ (LineBody q ('\\' :: s) → LineBody q ('\\' :: t)) := by
  induction h with
  | nil => exact ⟨id, id⟩
  | @keep u s t _ ih =>
    refine ⟨fun hbody => ?_, fun hbody => ?_⟩
    · cases hbody with
      | char hne hb rest => exact .char hne hb (ih.1 rest)
      | escape hc rest => exact ih.2 (.escape hc rest)
    · obtain ⟨hc, rest⟩ := lineBody_escape_iff.mp hbody
      exact .escape hc (ih.1 rest)
  | swap hxy _ ih =>
    obtain ⟨hbody, hescape⟩ := lineBody_range_iff hq hxy
    obtain ⟨hbody', hescape'⟩ := lineBody_range_iff hq hxy.symm
    rw [hbody, hescape, hbody', hescape']
    exact ⟨ih.1, ih.1⟩

theorem stable_isLiteral : Stable (fun _ => IsLiteral) Ranges where
  carried _ hw hs := by
    cases hw with
    | @quoted q x hq hx =>
      have hopen : '[' ∉ [q] := by rcases hq with rfl | rfl <;> decide
      have houtside : OutsideRanges q := by rcases hq with rfl | rfl <;> decide
      obtain ⟨x', a', rfl, hx', hw', ha⟩ := exists_closed hopen houtside hs
      exact ⟨_, a', rfl, .quoted hq ((lineBody_exchanged houtside hx').1 hx), hw', ha⟩
    | backticked hx =>
      have houtside : OutsideRanges '\x60' := by decide
      obtain ⟨x', a', rfl, hx', hw', ha⟩ := exists_closed (p := ['\x60']) (by decide) houtside hs
      exact ⟨_, a', rfl, .backticked (not_mem_of_exchanged houtside hx' hx), hw', ha⟩
  outside h := by
    refine along_vacant h fun b w hw => ?_
    cases hw with
    | quoted hq =>
      refine ⟨_, rfl, ?_⟩
      rcases hq with rfl | rfl <;> decide
    | backticked => exact ⟨_, rfl, by decide⟩

/-! ### Matchers and lists of labels -/

theorem stable_isMatchers : Stable (fun _ => IsMatchers) Ranges where
  carried _ hw hs := by
    obtain ⟨hx⟩ := hw
    have houtside : OutsideRanges '\x7d' := by decide
    obtain ⟨x', a', rfl, hx', hw', ha⟩ := exists_closed (p := ['\x7b']) (by decide) houtside hs
    exact ⟨_, a', rfl, .mk (not_mem_of_exchanged houtside hx' hx), hw', ha⟩
  outside h := by
    refine along_vacant h fun b w hw => ?_
    obtain ⟨-⟩ := hw
    exact ⟨_, rfl, by decide⟩

/-- A list of labels begins with a letter behind the end of a word, and there is no such place in a
range. -/
theorem along_vacant_labelList (h : Ranges x y) : Along (Vacant IsLabelList) b x a := by
  refine along_of_isChain (isChain_resized x y (.range h)) (fun _ => ?_) fun b a u v hadjoins => ?_
  · rintro w ⟨-, hk, -, -⟩ hpre
    obtain ⟨u, z, hz, halpha⟩ := exists_letter_of_mem_listKeywords hk
    obtain ⟨-, -⟩ := h
    rw [hz] at hpre
    obtain rfl := (List.cons_prefix_cons.mp hpre).1
    exact absurd halpha (by decide)
  · rintro w ⟨hb, hk, -, -⟩ hpre
    obtain ⟨u', z, hz, halpha⟩ := exists_letter_of_mem_listKeywords hk
    rw [hz] at hpre
    obtain rfl := (List.cons_prefix_cons.mp hpre).1
    rcases hadjoins with ⟨-, rfl⟩ | ⟨-, hdigit⟩ | ⟨hword, -⟩
    · exact absurd halpha (by decide)
    · simp [isDecimal_of_isAlpha halpha] at hdigit
    · simp [opens_cons.mp hb] at hword

theorem stable_isLabelList : Stable IsLabelList Ranges where
  carried {b b' w a s'} hbehind hw hs := by
    obtain ⟨hb, hk, hy, hx⟩ := hw
    rename_i y x k
    have houtside : OutsideRanges ')' := by decide
    have hopen : '[' ∉ k.toList ++ (y ++ ['(']) := by
      simp only [List.mem_append, not_or]
      refine ⟨fun hmem => ?_, fun hmem => ?_, by decide⟩
      · exact absurd (isNameChar_of_mem_listKeywords k hk _ hmem) (by decide)
      · exact absurd (hy _ hmem) (by decide)
    have heq : ∀ x : List Char, k.toList ++ (y ++ '(' :: (x ++ [')'])) =
        k.toList ++ (y ++ ['(']) ++ (x ++ [')']) := by simp
    have hopens : Opens b' := by
      intro u hu
      rw [← hbehind.head?_eq steady_ranges.mirrored] at hu
      exact hb u hu
    rw [heq x] at hs
    obtain ⟨x', a', rfl, hx', hw', ha⟩ := exists_closed hopen houtside hs
    rw [← heq x, ← heq x'] at hw'
    exact ⟨_, a', by rw [heq x'], .mk hopens hk hy (not_mem_of_exchanged houtside hx' hx), hw', ha⟩
  outside h := along_vacant_labelList h

/-! ## Scrubbed texts -/

theorem Without.exchanged {K : List Char → List Char → Prop} (hK : Definite K)
    (hstable : Stable K Ranges) (h : Without K s t) {s' : List Char} (hs : Exchanged Ranges s s') :
    ∃ t', Without K s' t' ∧ Exchanged Ranges t t' := by
  obtain ⟨d, hd, rfl⟩ := h
  obtain ⟨d', hd', hput⟩ :=
    hd.exchanged (y := [' ']) steady_ranges (fun _ _ => Ranges.symm) hK hstable .nil hs
  exact ⟨_, ⟨d', hd', rfl⟩, hput⟩

/-- The scrubbed texts of texts with other ranges. -/
theorem exchanged_scrub (h : Exchanged Ranges s t) : Exchanged Ranges (scrub s) (scrub t) := by
  obtain ⟨u, v, hliteral, hmatchers, hlabels⟩ := scrubbed_iff.mpr (rfl : scrub s = scrub s)
  obtain ⟨u', hliteral', hu⟩ := hliteral.exchanged definite_isLiteral stable_isLiteral h
  obtain ⟨v', hmatchers', hv⟩ := hmatchers.exchanged definite_isMatchers stable_isMatchers hu
  obtain ⟨t', hlabels', ht⟩ := hlabels.exchanged definite_isLabelList stable_isLabelList hv
  rwa [← scrubbed_iff.mp ⟨u', v', hliteral', hmatchers', hlabels'⟩]

/-- Scrubbing brings in spaces only. -/
theorem Without.forall_mem {K : List Char → List Char → Prop} {P : Char → Prop} (hblank : P ' ')
    (h : Without K s t) (hs : ∀ u ∈ s, P u) : ∀ u ∈ t, P u := by
  obtain ⟨d, hd, rfl⟩ := h
  rw [← hd.text_eq] at hs
  exact Division.forall_mem_text_put (by simpa using hblank) hs

theorem forall_mem_scrub {P : Char → Prop} (hblank : P ' ') (hs : ∀ u ∈ s, P u) :
    ∀ u ∈ scrub s, P u := by
  obtain ⟨u, v, hliteral, hmatchers, hlabels⟩ := scrubbed_iff.mpr (rfl : scrub s = scrub s)
  exact hlabels.forall_mem hblank (hmatchers.forall_mem hblank (hliteral.forall_mem hblank hs))

/-! ## Names -/

/-- In a range of ASCII characters no name is collected. -/
theorem collects_range (h : Ranges x y) (hascii : ∀ u ∈ x, u.toNat < 128) :
    Collects b x a [] := by
  obtain ⟨hi, -⟩ := h
  rename_i i j
  replace hascii : ∀ u ∈ i, u.toNat < 128 := fun u hu => hascii u (by simp [hu])
  have hname : ∀ u ∈ i, isNameChar u = true := by
    intro u hu
    have hword := hi.isWord u hu
    rwa [Text.isWord, if_pos (hascii u hu)] at hword
  have hfirst : ∃ u ∈ i.head?, u.isDigit = true := by
    obtain ⟨u, hu, hdigit⟩ := hi.digit
    rw [isDecimal, if_pos (hascii u (List.mem_of_mem_head? hu))] at hdigit
    exact ⟨u, hu, hdigit⟩
  have hnumber : ∀ u, u.isDigit = true → isIdentStart u = false := by
    intro u hu
    simp only [isIdentStart, isAlpha_of_isDigit hu, Bool.false_or, Bool.or_eq_false_iff]
    constructor <;> rw [beq_eq_false_iff_ne] <;> rintro rfl <;> exact absurd hu (by decide)
  -- the number that the range begins with, and the word that is behind it
  obtain ⟨n, r, rfl, hn, hr⟩ := exists_run Char.isDigit i
  have hne : n ≠ [] := by
    rintro rfl
    obtain ⟨u, hu, hdigit⟩ := hfirst
    simp [hr u (by simpa using hu)] at hdigit
  obtain ⟨n, c, rfl⟩ := (List.eq_nil_or_concat n).resolve_left hne
  have hskip : ('[' :: (n ++ [c])).all (!isIdentStart ·) = true := by
    rw [List.all_cons, List.all_eq_true.mpr fun u hu => by
      rw [hnumber u (hn u (by simpa using hu)), Bool.not_false]]
    decide
  have hsplit : '[' :: (n.concat c ++ r ++ [']']) = '[' :: (n ++ [c]) ++ (r ++ [']']) := by simp
  rw [hsplit]
  refine .skip_append hskip ?_
  cases r with
  | nil => exact .skip (by decide)
  | cons u r =>
    have hstart : isIdentStart u = true := by
      have hu := hname u (by simp)
      have hnot := hr u rfl
      simp only [isNameChar, Char.isAlphanum, hnot, Bool.or_false] at hu
      rw [isIdentStart, hu, Bool.true_or]
    have hident : ∀ v ∈ r, isIdentChar v = true := fun v hv =>
      isIdentChar_of_isNameChar (hname v (by simp [hv]))
    have hunit : Collects (c :: (n.reverse ++ '[' :: b)) (u :: r) (']' :: a) [] :=
      .unit hstart hident (by simp; decide) (hn c (by simp))
    have hclose : Collects ((u :: r).reverse ++ c :: (n.reverse ++ '[' :: b)) [']'] a [] :=
      .skip (by decide)
    simpa using hunit.append hclose

/-- The same names are collected from ASCII texts with other ranges. The induction is on the length
of the text, since a name is passed as a whole, and so is a range. -/
theorem exists_collects {b' : List Char} (h : Exchanged Ranges s t) (hb : b.head? = b'.head?)
    (hs : ∀ u ∈ s, u.toNat < 128) (ht : ∀ u ∈ t, u.toNat < 128) :
    ∃ names, Collects b s [] names ∧ Collects b' t [] names := by
  induction hn : s.length using Nat.strong_induction_on generalizing b b' s t with
  | _ n ih =>
    subst hn
    cases h with
    | nil => exact ⟨[], .nil, .nil⟩
    | @keep u s t hrest =>
      have hs' : ∀ v ∈ s, v.toNat < 128 := fun v hv => hs v (.tail _ hv)
      have ht' : ∀ v ∈ t, v.toNat < 128 := fun v hv => ht v (.tail _ hv)
      by_cases hu : isIdentStart u = true
      · obtain ⟨x, r, rfl, hx, hr⟩ := exists_run isIdentChar s
        have hfree : ∀ v ∈ x, v ≠ '[' := by
          rintro v hv rfl
          exact absurd (hx _ hv) (by decide)
        obtain ⟨r', rfl, hr'⟩ := hrest.append_inv steady_ranges fun v hv _ _ hxy =>
          hxy.head?_ne (hfree v hv)
        have hends : Ends r' := by
          intro v hv
          rw [← hr'.head?_eq steady_ranges] at hv
          exact hr v hv
        have hhead : ((u :: x).reverse ++ b).head? = ((u :: x).reverse ++ b').head? := by
          cases hx : (u :: x).reverse <;> simp_all
        have hshort : r.length < (u :: (x ++ r)).length := by
          simp only [List.length_cons, List.length_append]
          omega
        obtain ⟨names, hnames, hnames'⟩ := ih r.length hshort hr' hhead
          (fun v hv => hs' v (List.mem_append_right _ hv))
          (fun v hv => ht' v (List.mem_append_right _ hv)) rfl
        have hword := Collects.word (b := b) hu hx hr
        have hword' := Collects.word (b := b') hu hx hends
        rw [← hb] at hword'
        rw [← List.append_nil r] at hword
        rw [← List.append_nil r'] at hword'
        exact ⟨_, hword.append hnames, hword'.append hnames'⟩
      · have hhead : (u :: b).head? = (u :: b').head? := rfl
        obtain ⟨names, hnames, hnames'⟩ :=
          ih s.length (Nat.lt_succ_self _) hrest hhead hs' ht' rfl
        have hskip : [u].all (!isIdentStart ·) = true := by simpa using hu
        exact ⟨_, .skip_append hskip hnames, .skip_append hskip hnames'⟩
    | @swap x y s t hxy hrest =>
      have hshort : s.length < (x ++ s).length := by
        have hpos := List.length_pos_iff.mpr (steady_ranges.ne_nil hxy)
        rw [List.length_append]
        omega
      have hhead : (x.reverse ++ b).head? = (y.reverse ++ b').head? := by
        obtain ⟨-, -⟩ := hxy
        simp
      obtain ⟨names, hnames, hnames'⟩ := ih s.length hshort hrest hhead
        (fun v hv => hs v (List.mem_append_right _ hv))
        (fun v hv => ht v (List.mem_append_right _ hv)) rfl
      have hx := collects_range (b := b) (a := s ++ []) hxy fun v hv =>
        hs v (List.mem_append_left _ hv)
      have hy := collects_range (b := b') (a := t ++ []) hxy.symm fun v hv =>
        ht v (List.mem_append_left _ hv)
      exact ⟨names, hx.append hnames, hy.append hnames'⟩

theorem forall_mem_minutesSelector (n : Nat) : ∀ u ∈ minutesSelector n, u.toNat < 128 := by
  intro u hu
  simp only [minutesSelector, List.mem_cons, List.mem_append] at hu
  rcases hu with (rfl | hu) | hu
  · decide
  · have hmem : u ∈ Nat.toDigits 10 n := by simpa using hu
    have hdigit := Nat.isDigit_of_mem_toDigits (by decide) (by decide) hmem
    rw [isDigit_iff] at hdigit
    omega
  · have hall : "m]".toList.all (fun u => u.toNat < 128) = true := by decide
    simpa using List.all_eq_true.mp hall u hu

theorem forall_mem_replaceRanges (hs : ∀ u ∈ s, u.toNat < 128) (window : Option Nat) :
    ∀ u ∈ replaceRanges s window, u.toNat < 128 := by
  match window with
  | none => exact hs
  | some 0 => exact hs
  | some (n + 1) =>
    have hexchanged : Exchanged (fun _ y => ∀ u ∈ y, u.toNat < 128) s
        (replaceRanges s (some (n + 1))) :=
      exchanged_replaceAll fun _ _ _ => forall_mem_minutesSelector (n + 1)
    exact hexchanged.forall_mem (fun _ _ hy => hy) hs

/-- A window keeps the metric names of an ASCII text. -/
theorem metricNames_replaceRanges (hs : ∀ u ∈ s, u.toNat < 128) (window : Option Nat) :
    metricNames (replaceRanges s window) = metricNames s := by
  have hstart : ([] : List Char).head? = ([] : List Char).head? := rfl
  obtain ⟨names, hnames, hnames'⟩ :=
    exists_collects (exchanged_scrub (exchanged_replaceRanges s window)) hstart
      (forall_mem_scrub (by decide) hs)
      (forall_mem_scrub (by decide) (forall_mem_replaceRanges hs window))
  rw [hnames.metricNames_eq, hnames'.metricNames_eq]

end

/-- The metric names of an accepted ASCII query stay as they are with any window, so the lookup of
the query with the window judges the names of the query that was accepted. -/
theorem metrics_withWindow {raw : String} {q : CheckedQuery}
    (h : validate raw = .ok q ∨ screen raw = .ok (.query q))
    (hascii : ∀ u ∈ q.text.toList, u.toNat < 128) (window : Option Nat) :
    (q.withWindow window).metrics = q.metrics ∧
    ∀ (text candidate : String) (attempts : Nat) (catalog : MetricCatalog),
      Service.Pipeline.lookUp text ⟨q, candidate, attempts⟩ window catalog =
        if (catalog.partition q.metrics).allKnown then
          .ok ⟨text, (q.withWindow window).text, window, candidate, attempts⟩
        else .error (.unknownMetrics (q.withWindow window).text (catalog.partition q.metrics)) := by
  obtain ⟨-, rfl⟩ := passes_of_accepted h
  rw [CheckedQuery.toList_text_ofText] at hascii
  have hmetrics : ((CheckedQuery.ofText (normalize raw.toList)).withWindow window).metrics =
      (CheckedQuery.ofText (normalize raw.toList)).metrics := by
    rw [CheckedQuery.withWindow, CheckedQuery.toList_text_ofText]
    simp only [CheckedQuery.ofText, metricNames_replaceRanges hascii]
  refine ⟨hmetrics, fun text candidate attempts catalog => ?_⟩
  simp only [Service.Pipeline.lookUp, hmetrics]

theorem metrics_sharePerJob_withWindow :
    validate sharePerJob.text = .ok sharePerJob ∧
      (∀ u ∈ sharePerJob.text.toList, u.toNat < 128) ∧
      (sharePerJob.withWindow (some 60)).metrics = ["http_hits", "node_total"] := by
  have haccepted : validate sharePerJob.text = .ok sharePerJob := by decide +kernel
  have hall : sharePerJob.text.toList.all (fun u => u.toNat < 128) = true := by decide +kernel
  have hascii : ∀ u ∈ sharePerJob.text.toList, u.toNat < 128 := by
    simpa using List.all_eq_true.mp hall
  exact ⟨haccepted, hascii, (metrics_withWindow (.inl haccepted) hascii (some 60)).1⟩

end AskMetrics.Query
