import AskMetrics.Proofs.Distinct
import AskMetrics.Proofs.Query.Expression
import AskMetrics.Proofs.Query.Metrics
import AskMetrics.Proofs.Text.Found

/-!
# The names found in a query

A token of a text is a name that is part of no longer one. The scan for names finds the tokens, all
of them and in order: it goes on behind each name it finds, and a name that begins later than it
could is part of one that the scan has found already. The metric names of a query are those tokens
of the scrubbed text that do not go on a number, are not vocabulary and are not plain words.
-/
namespace AskMetrics.Query

open AskMetrics.Text

/-! ## Names and tokens -/

/-- A letter, an underscore or a colon, and then more of these and digits. -/
inductive IsName : List Char → Prop
  | mk {u : Char} {x : List Char} (hu : isIdentStart u = true)
    (hx : ∀ v ∈ x, isIdentChar v = true) : IsName (u :: x)

instance : (w : List Char) → Decidable (IsName w)
  | [] => .isFalse nofun
  | u :: x => decidable_of_iff (isIdentStart u = true ∧ x.all isIdentChar = true)
      ⟨fun ⟨hu, hx⟩ => .mk hu (List.all_eq_true.mp hx),
        fun | .mk hu hx => ⟨hu, List.all_eq_true.mpr hx⟩⟩

/-- A word somewhere in a text, with the text before it and the text after it. -/
structure Token where
  before : List Char
  word : List Char
  after : List Char

/-- `k` is a name in the text `t`, and it is part of no longer name there. -/
structure Token.IsIn (k : Token) (t : List Char) : Prop where
  text : k.before ++ (k.word ++ k.after) = t
  name : IsName k.word
  whole : ∀ x y, x <:+ k.before → y <+: k.after → IsName (x ++ (k.word ++ y)) → x = [] ∧ y = []

/-- `ks` are the tokens of the text `t` in the order in which they stand there. -/
structure Tokens (t : List Char) (ks : List Token) : Prop where
  mem_iff : ∀ k, k ∈ ks ↔ k.IsIn t
  ordered : ks.Pairwise fun k k' => k.before.length < k'.before.length

/-- Whether a token can be the name of a metric: it stands behind no digit or point, is not
vocabulary and has something else in it than letters. -/
def Token.isCandidate (k : Token) : Bool :=
  !(k.before.getLast?.any fun u => u.isDigit || u == '.') && !isReserved k.word &&
    !k.word.all Char.isAlpha

section
variable {w x y a b : List Char}

theorem isIdentChar_of_isIdentStart {u : Char} (h : isIdentStart u = true) :
    isIdentChar u = true := by
  simp only [isIdentStart, isIdentChar, Char.isAlphanum, Bool.or_eq_true] at h ⊢
  tauto

namespace IsName

theorem ne_nil (h : IsName w) : w ≠ [] := by
  obtain ⟨-, -⟩ := h
  simp

theorem isIdentChar (h : IsName w) : ∀ u ∈ w, isIdentChar u = true := by
  obtain ⟨hu, hx⟩ := h
  exact List.forall_mem_cons.mpr ⟨isIdentChar_of_isIdentStart hu, hx⟩

/-- A name goes on in any characters of names. -/
theorem append (h : IsName x) (hy : ∀ v ∈ y, Text.isIdentChar v = true) : IsName (x ++ y) := by
  obtain ⟨hu, hx⟩ := h
  exact .mk hu (List.forall_mem_append.mpr ⟨hx, hy⟩)

/-- What a name begins with is a name. -/
theorem of_append (h : IsName (x ++ y)) (hx : x ≠ []) : IsName x := by
  obtain ⟨u, x, rfl⟩ := List.exists_cons_of_ne_nil hx
  obtain ⟨hu, htail⟩ := h
  exact .mk hu (List.forall_mem_append.mp htail).1

/-- A name does not go on where names end. -/
theorem eq_nil_of_append (h : IsName (x ++ y)) (hy : y <+: a) (ha : Ends a) : y = [] := by
  cases y with
  | nil => rfl
  | cons v y =>
    obtain ⟨r, rfl⟩ := hy
    have hv := h.isIdentChar v (by simp)
    simp [ha v rfl] at hv

end IsName

/-- A name is a token if it does not go on, and no name ends where it begins. -/
theorem Token.isIn_iff {k : Token} {t : List Char} :
    k.IsIn t ↔ k.before ++ (k.word ++ k.after) = t ∧ IsName k.word ∧ Ends k.after ∧
      ∀ x, x <:+ k.before → ¬ IsName x := by
  constructor
  · rintro ⟨htext, hname, hwhole⟩
    refine ⟨htext, hname, fun v hv => ?_, fun x hx hlonger => ?_⟩
    · by_contra hident
      obtain ⟨r, hr⟩ := List.head?_eq_some_iff.mp hv
      have hlonger : IsName ([] ++ (k.word ++ [v])) := hname.append (by simpa using hident)
      exact absurd (hwhole [] [v] List.nil_suffix ⟨r, hr.symm⟩ hlonger).2 (by simp)
    · have hlonger' : IsName (x ++ (k.word ++ [])) := by
        rw [List.append_nil]
        exact hlonger.append hname.isIdentChar
      exact hlonger.ne_nil (hwhole x [] hx List.nil_prefix hlonger').1
  · rintro ⟨htext, hname, hends, hstart⟩
    refine ⟨htext, hname, fun x y hx hy hlonger => ?_⟩
    have hnil : x = [] := by
      by_contra hne
      exact hstart x hx (hlonger.of_append hne)
    subst hnil
    have hname' : IsName (k.word ++ y) := by simpa using hlonger
    exact ⟨rfl, hname'.eq_nil_of_append hy hends⟩

/-! ## What the scan finds -/

theorem matchAt_of_isName (hw : IsName w) (ha : Ends a) :
    matchAt [identifierPattern] ⟨b, w ++ a⟩ = some ⟨⟨b, w ++ a⟩, [w], ⟨w.reverse ++ b, a⟩⟩ := by
  obtain ⟨hu, hx⟩ := hw
  rw [matchAt_singleton, first_identifierPattern hu hx ha, Option.map_some,
    (Cursor.reads_mk b _ a).upTo]

/-- Where a name can begin, one is found. -/
theorem isIdentStart_eq_false_of_matchAt {u : Char}
    (h : matchAt [identifierPattern] ⟨b, u :: a⟩ = none) : isIdentStart u = false := by
  by_contra hu
  obtain ⟨x, r, rfl, hx, hr⟩ := exists_run isIdentChar a
  have hmatch := matchAt_of_isName (b := b) (IsName.mk (by simpa using hu) hx) hr
  rw [List.cons_append, h] at hmatch
  exact absurd hmatch (by simp)

section
variable {c : Cursor} {m : Match}

theorem isName_of_matchAt (h : matchAt [identifierPattern] c = some m) :
    IsName m.text ∧ Ends m.stop.ahead := by
  rw [matchAt_singleton, Option.map_eq_some_iff] at h
  obtain ⟨d, hfirst, rfl⟩ := h
  obtain ⟨e, he, hmany⟩ := Pattern.exists_first_of_first_andThen hfirst
  obtain ⟨u, hu, hread⟩ := Pattern.mem_ends_one.mp he
  obtain ⟨x, hrest, hx, hends⟩ := Pattern.exists_reads_of_first_many_one hmany
  refine ⟨?_, hends⟩
  rw [Match.text, List.flatten_singleton, (hread.trans hrest).upTo]
  exact .mk hu hx

theorem less_of_matchAt (c : Cursor) (m : Match) (h : matchAt [identifierPattern] c = some m) :
    m.stop.ahead.length < c.ahead.length := by
  have hpos := List.length_pos_iff.mpr (isName_of_matchAt h).1.ne_nil
  have hlength := (reads_of_matchAt h).2.length
  omega

end

/-- A match of a scan as a token of the text. -/
def token (m : Match) : Token := ⟨m.start.behind.reverse, m.text, m.stop.ahead⟩

/-- No name goes on across a place. -/
def StartsAfresh (c : Cursor) : Prop :=
  ∀ x y, x ≠ [] → y ≠ [] → x <:+ c.behind.reverse → y <+: c.ahead → ¬ IsName (x ++ y)

/-- What a scan finds from a place across which no name goes on are tokens of the text. -/
theorem isIn_of_finds {c : Cursor} {ms : List Match} (h : Finds [identifierPattern] c ms)
    (hfresh : StartsAfresh c) : ∀ m ∈ ms, (token m).IsIn (c.behind.reverse ++ c.ahead) := by
  induction h with
  | done b => simp
  | @skip b a u ms hno _ ih =>
    have hu := isIdentStart_eq_false_of_matchAt hno
    have hnext : StartsAfresh ⟨u :: b, a⟩ := by
      intro x y hx hy hsuffix hpre hname
      -- the name would begin at `u`, or before it and go on across this place
      rw [List.reverse_cons] at hsuffix
      rcases List.suffix_concat_iff.mp (by simpa using hsuffix) with rfl | ⟨z, rfl, hz⟩
      · exact hx rfl
      · by_cases hne : z = []
        · subst hne
          obtain ⟨hstart, -⟩ := hname
          simp [hu] at hstart
        · refine hfresh z (u :: y) hne (by simp) hz (List.cons_prefix_cons.mpr ⟨rfl, hpre⟩) ?_
          simpa using hname
    simpa using ih hnext
  | @hit c m ms hmatch _ _ ih =>
    obtain ⟨hname, hends⟩ := isName_of_matchAt hmatch
    obtain ⟨hstart, hread⟩ := reads_of_matchAt hmatch
    have hnext : StartsAfresh m.stop := fun x y _ hy _ hpre hlonger =>
      hy (hlonger.eq_nil_of_append hpre hends)
    intro m' hm'
    rcases List.mem_cons.mp hm' with rfl | hm'
    · refine Token.isIn_iff.mpr ⟨by rw [token, hstart, hread.ahead], hname, hends,
        fun x hsuffix hx => ?_⟩
      rw [token, hstart] at hsuffix
      refine hfresh x m'.text hx.ne_nil hname.ne_nil hsuffix ?_ (hx.append hname.isIdentChar)
      rw [hread.ahead]
      exact List.prefix_append ..
    · have hrest := ih hnext m' hm'
      rwa [hread.behind, List.reverse_append, List.reverse_reverse, List.append_assoc,
        ← hread.ahead] at hrest

/-- What a scan finds stands in the order in which it is found. -/
theorem ordered_of_finds {c : Cursor} {ms : List Match} (h : Finds [identifierPattern] c ms) :
    ms.Pairwise (fun m m' => m.start.behind.length < m'.start.behind.length) ∧
      ∀ m ∈ ms, c.behind.length ≤ m.start.behind.length := by
  induction h with
  | done b => simp
  | skip _ _ ih =>
    exact ⟨ih.1, fun m hm => Nat.le_of_succ_le (ih.2 m hm)⟩
  | @hit c m ms hmatch _ _ ih =>
    obtain ⟨hstart, hread⟩ := reads_of_matchAt hmatch
    have hpos := List.length_pos_iff.mpr (isName_of_matchAt hmatch).1.ne_nil
    have hstop : m.stop.behind.length = m.text.length + c.behind.length := by
      rw [hread.behind, List.length_append, List.length_reverse]
    refine ⟨List.pairwise_cons.mpr ⟨fun m' hm' => ?_, ih.1⟩, fun m' hm' => ?_⟩
    · have hlater := ih.2 m' hm'
      rw [hstart]
      omega
    · rcases List.mem_cons.mp hm' with rfl | hm'
      · rw [hstart]
      · have hlater := ih.2 m' hm'
        omega

/-- A token is found: a match that covers its start would make a longer name of it. -/
theorem exists_mem_findAll_of_isIn {t : List Char} {k : Token} (h : k.IsIn t) :
    ∃ m ∈ findAll [identifierPattern] t, token m = k := by
  obtain ⟨-, hname, hends, hbegins⟩ := Token.isIn_iff.mp h
  have hplace : t = k.before.reverse.reverse ++ (k.word ++ k.after) := by
    rw [List.reverse_reverse, h.text]
  have hmatch := matchAt_of_isName (b := k.before.reverse) hname hends
  rcases mem_findAll_or_covers less_of_matchAt hplace hmatch with
    hmem | ⟨m, hm, x, y, hx, hy, hxread, hyread⟩
  · exact ⟨_, hmem, by simp [token, Match.text]⟩
  · obtain ⟨b, a, -, hstart, hmatch'⟩ := exists_matchAt_of_mem_findAll hm
    obtain ⟨-, hread⟩ := reads_of_matchAt hmatch'
    have htext : m.text = x ++ y := by
      have hahead := (hxread.trans hyread).ahead
      rw [hstart, hread.ahead] at hahead
      exact List.append_cancel_right hahead
    have hlonger : IsName (x ++ y) := htext ▸ (isName_of_matchAt hmatch').1
    have hsuffix : x <:+ k.before := by
      have hbehind := congrArg List.reverse hxread.behind
      simp only [List.reverse_append, List.reverse_reverse] at hbehind
      rw [hbehind]
      exact List.suffix_append ..
    exact absurd (hlonger.of_append hx) (hbegins x hsuffix)

/-- The names found in a text are its tokens, in order. -/
theorem tokens_findAll (t : List Char) : Tokens t ((findAll [identifierPattern] t).map token) := by
  obtain ⟨ms, hms⟩ := exists_finds less_of_matchAt (.start t)
  have hfresh : StartsAfresh (.start t) := fun x y hx _ hsuffix =>
    absurd (List.suffix_nil.mp hsuffix) hx
  have hin := isIn_of_finds hms hfresh
  refine ⟨fun k => ⟨fun hk => ?_, fun hk => ?_⟩, ?_⟩
  · obtain ⟨m, hm, rfl⟩ := List.mem_map.mp hk
    rw [hms.findAll_eq] at hm
    exact hin m hm
  · obtain ⟨m, hm, rfl⟩ := exists_mem_findAll_of_isIn hk
    exact List.mem_map_of_mem hm
  · rw [hms.findAll_eq, List.pairwise_map]
    simpa [token] using (ordered_of_finds hms).1

/-! ## The names of a query -/

theorem isReserved_iff :
    isReserved w = true ↔
      ∃ name ∈ functionNames ++ modifierNames, lowerAscii name.toList = lowerAscii w := by
  rw [isReserved, List.any_eq_true]
  refine exists_congr fun name => and_congr_right fun hname => ?_
  rw [lowerAscii_of_mem_vocabulary name hname, beq_iff_eq]

theorem isCandidate_token (m : Match) :
    (token m).isCandidate = (!continuesNumber m && isMetricLike m.text) := by
  simp [Token.isCandidate, token, continuesNumber, isMetricLike, Bool.and_assoc]

/-- The metric names of a query are names that stand in it, each once, not plain words and not
vocabulary. They are the first occurrences among the tokens of the scrubbed text that can be
metrics. -/
theorem metricNames_eq_tokens (s : List Char) :
    (∀ w ∈ metricNames s, IsName w ∧ w <:+: s ∧ (∃ u ∈ w, u.isAlpha = false) ∧
      ∀ name ∈ functionNames ++ modifierNames, lowerAscii w ≠ lowerAscii name.toList) ∧
    (metricNames s).Nodup ∧
    ∃ t ks, (∀ t', Scrubbed s t' ↔ t' = t) ∧ Tokens t ks ∧
      metricNames s = ((ks.filter Token.isCandidate).map Token.word).eraseDups := by
  have htokens := tokens_findAll (scrub s)
  have hnames : metricNames s = ((((findAll [identifierPattern] (scrub s)).map token).filter
      Token.isCandidate).map Token.word).eraseDups := by
    rw [metricNames, distinct_eq_eraseDups, List.filter_map, List.map_map]
    simp only [Function.comp_def, isCandidate_token]
    rfl
  refine ⟨fun w hw => ?_, ?_, scrub s, _, fun t' => scrubbed_iff, htokens, hnames⟩
  · rw [hnames, List.mem_eraseDups, List.mem_map] at hw
    obtain ⟨k, hk, rfl⟩ := hw
    obtain ⟨hmem, hcandidate⟩ := List.mem_filter.mp hk
    have hin := (htokens.mem_iff k).mp hmem
    have hspace : ' ' ∉ k.word := fun hmem =>
      absurd (hin.name.isIdentChar ' ' hmem) (by decide)
    simp only [Token.isCandidate, Bool.and_eq_true, Bool.not_eq_true'] at hcandidate
    obtain ⟨⟨-, hfree⟩, hplain⟩ := hcandidate
    refine ⟨hin.name, ?_, by simpa using hplain, fun name hname heq => ?_⟩
    · refine Scrubbed.infix_of_infix (scrubbed_iff.mpr rfl) hspace ?_
      exact ⟨k.before, k.after, by rw [← hin.text, List.append_assoc]⟩
    · rw [isReserved_iff.mpr ⟨name, hname, heq.symm⟩] at hfree
      exact absurd hfree (by simp)
  · rw [hnames]
    exact nodup_eraseDups _

end

end AskMetrics.Query
