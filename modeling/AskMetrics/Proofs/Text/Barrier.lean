import AskMetrics.Proofs.Text.Rewrite

/-!
# Texts that are rewritten in two halves

Where no match of a text goes on behind a place, the text before the place is rewritten by itself.
But which match is the preferred one at a place depends on all that the pattern tries, and some of
it may lie behind. It does not if the matches that count end before: those that end inside of a part
that two texts share are the same in both of them, and in the same order.
-/
namespace AskMetrics.Text

/-! ## Shared parts -/

/-- Whether a pattern repeats nothing but single characters. -/
def Pattern.repeatsSingly : Pattern → Bool
  | many (one _) => true
  | many _ => false
  | andThen p q => p.repeatsSingly && q.repeatsSingly
  | orElse p q => p.repeatsSingly && q.repeatsSingly
  | _ => true

/-- Two places with the same text before them and the same text next. Behind that lie `a` and
`a'`. -/
structure Cursor.Shares (a a' : List Char) (c c' : Cursor) : Prop where
  behind : c.behind = c'.behind
  ahead : ∃ z, z ≠ [] ∧ c.ahead = z ++ a ∧ c'.ahead = z ++ a'

/-- Whether a place lies before the rest `a` of a text. -/
def Cursor.isBefore (a : List Char) (c : Cursor) : Bool := a.length < c.ahead.length

section
variable {a a' : List Char} {c c' d d' : Cursor} {p : Pattern} {f : Char → Bool}

namespace Cursor.Shares

theorem isBefore (h : c.Shares a a' c') : c.isBefore a = true ∧ c'.isBefore a' = true := by
  obtain ⟨z, hz, hahead, hahead'⟩ := h.ahead
  have hpos := List.length_pos_of_ne_nil hz
  simp [Cursor.isBefore, hahead, hahead', hpos]

/-- A place before the end of the shared part counts in both texts. -/
theorem forall₂_filter_singleton (h : c.Shares a a' c') :
    List.Forall₂ (Cursor.Shares a a') ([c].filter (·.isBefore a)) ([c'].filter (·.isBefore a')) := by
  rw [List.filter_cons_of_pos h.isBefore.1, List.filter_cons_of_pos h.isBefore.2]
  exact .cons h .nil

theorem atEdge_eq (h : c.Shares a a' c') : c.atEdge = c'.atEdge := by
  obtain ⟨z, hz, hahead, hahead'⟩ := h.ahead
  obtain ⟨u, z, rfl⟩ := List.exists_cons_of_ne_nil hz
  simp [Cursor.atEdge, h.behind, hahead, hahead']

theorem upTo_eq (h : c.Shares a a' c') (h' : d.Shares a a' d') : c.upTo d = c'.upTo d' := by
  obtain ⟨z, -, hc, hc'⟩ := h.ahead
  obtain ⟨y, -, hd, hd'⟩ := h'.ahead
  have htake : ∀ r : List Char,
      (z ++ r).take ((z ++ r).length - (y ++ r).length) = z.take (z.length - y.length) := by
    intro r
    have hlength : (z ++ r).length - (y ++ r).length = z.length - y.length := by
      simp only [List.length_append]
      omega
    rw [hlength, List.take_append_of_le_length (Nat.sub_le ..)]
  rw [Cursor.upTo, Cursor.upTo, hc, hc', hd, hd', htake, htake]

end Cursor.Shares

/-- What starts behind a place ends behind it. -/
theorem Pattern.isBefore_of_mem_ends (hd : d ∈ p.ends c) (h : d.isBefore a = true) :
    c.isBefore a = true := by
  obtain ⟨x, hx⟩ := exists_reads hd
  have hlength := hx.length
  simp only [Cursor.isBefore, decide_eq_true_eq] at h ⊢
  omega

/-- All places that a run of a class can reach, the farthest first. -/
def runs (f : Char → Bool) : List Char → List Char → List Cursor
  | b, [] => [⟨b, []⟩]
  | b, u :: a => if f u then runs f (u :: b) a ++ [⟨b, u :: a⟩] else [⟨b, u :: a⟩]

theorem repeated_one {n : Nat} {b a : List Char} (hn : a.length ≤ n) (rest : List Cursor) :
    repeated (Pattern.one f).ends n ⟨b, a⟩ rest = runs f b a ++ rest := by
  induction n generalizing b a rest with
  | zero =>
    obtain rfl := List.length_eq_zero_iff.mp (Nat.le_zero.mp hn)
    rfl
  | succ n ih =>
    cases a with
    | nil => rfl
    | cons u a =>
      have hstep : (Pattern.one f).ends ⟨b, u :: a⟩ = if f u then [⟨u :: b, a⟩] else [] := rfl
      rw [repeated, hstep, runs]
      split_ifs
      · rw [List.foldr_cons, List.foldr_nil, ih (Nat.le_of_succ_le_succ hn), List.append_assoc,
          List.singleton_append]
      · rfl

theorem ends_many_one (c : Cursor) : (Pattern.many (.one f)).ends c = runs f c.behind c.ahead := by
  rw [Pattern.ends, repeated_one (Nat.le_refl _), List.append_nil]

theorem filter_runs_eq_nil {b : List Char} : (runs f b a).filter (·.isBefore a) = [] := by
  rw [List.filter_eq_nil_iff]
  intro d hd hbefore
  have hends : d ∈ (Pattern.many (.one f)).ends ⟨b, a⟩ := by rwa [ends_many_one]
  have hnot := Pattern.isBefore_of_mem_ends hends hbefore
  simp [Cursor.isBefore] at hnot

theorem forall₂_filter_runs {b z : List Char} (hz : z ≠ []) :
    List.Forall₂ (Cursor.Shares a a') ((runs f b (z ++ a)).filter (·.isBefore a))
      ((runs f b (z ++ a')).filter (·.isBefore a')) := by
  induction z generalizing b with
  | nil => exact absurd rfl hz
  | cons u z ih =>
    have hhere : Cursor.Shares a a' ⟨b, u :: z ++ a⟩ ⟨b, u :: z ++ a'⟩ := ⟨rfl, _, hz, rfl, rfl⟩
    rw [List.cons_append, List.cons_append, runs, runs]
    split_ifs
    · rw [List.filter_append, List.filter_append]
      refine List.rel_append ?_ ?_
      · by_cases hnil : z = []
        · simp [hnil, filter_runs_eq_nil]
        · exact ih hnil
      · exact hhere.forall₂_filter_singleton
    · exact hhere.forall₂_filter_singleton

/-- Of some results only those of the places that are kept matter, if the others have none. -/
theorem flatMap_filter_eq {g : Cursor → List Cursor} {keeps : Cursor → Bool} {ds : List Cursor}
    (h : ∀ d ∈ ds, keeps d = false → g d = []) : (ds.filter keeps).flatMap g = ds.flatMap g := by
  induction ds with
  | nil => rfl
  | cons d ds ih =>
    have hrest := ih fun e he => h e (.tail _ he)
    cases hd : keeps d with
    | true => simp [hd, hrest]
    | false => simp [hd, hrest, h d (.head _) hd]

theorem findSome?_filter_eq {α : Type} {g : Cursor → Option α} {keeps : Cursor → Bool}
    {ds : List Cursor} (h : ∀ d ∈ ds, keeps d = false → g d = none) :
    (ds.filter keeps).findSome? g = ds.findSome? g := by
  induction ds with
  | nil => rfl
  | cons d ds ih =>
    have hrest := ih fun e he => h e (.tail _ he)
    cases hd : keeps d with
    | true => simp [hd, hrest, List.findSome?_cons]
    | false => simp [hd, hrest, h d (.head _) hd]

/-- The matches that end inside of a shared part are the same, in the same order. -/
theorem Pattern.forall₂_filter_ends (hp : p.repeatsSingly = true) (h : c.Shares a a' c') :
    List.Forall₂ (Cursor.Shares a a') ((p.ends c).filter (·.isBefore a))
      ((p.ends c').filter (·.isBefore a')) := by
  induction p generalizing c c' with
  | one f =>
    obtain ⟨z, hz, hahead, hahead'⟩ := h.ahead
    obtain ⟨u, z, rfl⟩ := List.exists_cons_of_ne_nil hz
    rw [List.cons_append] at hahead hahead'
    by_cases hu : f u = true
    · by_cases hnil : z = []
      · simp [ends, hahead, hahead', hu, hnil, Cursor.isBefore]
      · have hnext : Cursor.Shares a a' ⟨u :: c.behind, z ++ a⟩ ⟨u :: c'.behind, z ++ a'⟩ :=
          ⟨by rw [h.behind], z, hnil, rfl, rfl⟩
        simp [ends, hahead, hahead', hu, hnext.isBefore, hnext]
    · simp [ends, hahead, hahead', hu]
  | edge =>
    rw [ends, ends, h.atEdge_eq]
    split_ifs
    · exact h.forall₂_filter_singleton
    · exact .nil
  | atStart =>
    rw [ends, ends, h.behind]
    split_ifs
    · exact h.forall₂_filter_singleton
    · exact .nil
  | atEnd =>
    obtain ⟨z, hz, hahead, hahead'⟩ := h.ahead
    simp [ends, hahead, hahead', hz]
  | empty => exact h.forall₂_filter_singleton
  | andThen p q ihp ihq =>
    obtain ⟨hp, hq⟩ := Bool.and_eq_true_iff.mp hp
    have hnone : ∀ r (e : Cursor), e.isBefore r = false → (q.ends e).filter (·.isBefore r) = [] := by
      intro r e he
      rw [List.filter_eq_nil_iff]
      intro d hd hbefore
      simp [isBefore_of_mem_ends hd hbefore] at he
    rw [ends, ends, List.filter_flatMap, List.filter_flatMap,
      ← flatMap_filter_eq fun e _ => hnone a e, ← flatMap_filter_eq fun e _ => hnone a' e]
    exact List.rel_flatMap (ihp hp h) fun _ _ hd => ihq hq hd
  | orElse p q ihp ihq =>
    obtain ⟨hp, hq⟩ := Bool.and_eq_true_iff.mp hp
    rw [ends, ends, List.filter_append, List.filter_append]
    exact List.rel_append (ihp hp h) (ihq hq h)
  | many p =>
    cases p with
    | one f =>
      obtain ⟨z, hz, hahead, hahead'⟩ := h.ahead
      rw [ends_many_one, ends_many_one, h.behind, hahead, hahead']
      exact forall₂_filter_runs hz
    | _ => simp [repeatsSingly] at hp

/-- A match that ends inside of a shared part is in both texts. -/
theorem Pattern.exists_shares_of_mem_ends (hp : p.repeatsSingly = true) (h : c.Shares a a' c')
    (hd : d ∈ p.ends c) (hbefore : d.isBefore a = true) : ∃ d' ∈ p.ends c', d.Shares a a' d' := by
  have hends := forall₂_filter_ends hp h
  have hmem : d ∈ (p.ends c).filter (·.isBefore a) := List.mem_filter.mpr ⟨hd, hbefore⟩
  have hsub : ∀ e ∈ (p.ends c').filter (·.isBefore a'), e ∈ p.ends c' :=
    fun e he => List.mem_of_mem_filter he
  generalize (p.ends c).filter (·.isBefore a) = es, (p.ends c').filter (·.isBefore a') = es' at *
  induction hends with
  | nil => simp at hmem
  | @cons e e' es es' hshares _ ih =>
    cases List.mem_cons.mp hmem with
    | inl heq => exact ⟨e', hsub e' (.head _), heq ▸ hshares⟩
    | inr hmem => exact ih hmem fun e he => hsub e (.tail _ he)

/-- A match of some parts is a match of them in sequence. -/
theorem mem_ends_sequence_cons {ps : List Pattern} (hd : d ∈ p.ends c)
    (hd' : d' ∈ (Pattern.sequence ps).ends d) : d' ∈ (Pattern.sequence (p :: ps)).ends c := by
  cases ps with
  | nil =>
    obtain rfl := Pattern.mem_ends_empty.mp hd'
    exact hd
  | cons q qs => exact Pattern.mem_ends_andThen.mpr ⟨d, hd, hd'⟩

theorem mem_ends_sequence_of_splitFrom {parts : List Pattern} {texts : List (List Char)}
    (h : splitFrom parts c = some (texts, d)) : d ∈ (Pattern.sequence parts).ends c := by
  induction parts generalizing c texts with
  | nil =>
    obtain ⟨-, rfl⟩ := by simpa [splitFrom] using h
    exact Pattern.mem_ends_empty.mpr rfl
  | cons p ps ih =>
    obtain ⟨e, x, rest, -, he, -, hrest⟩ := exists_of_splitFrom_cons h
    exact mem_ends_sequence_cons he (ih hrest)

/-- What starts behind a place ends there, so it is not split if all matches end before. -/
theorem splitFrom_eq_none_of_behind {parts : List Pattern}
    (h : ∀ e ∈ (Pattern.sequence (p :: parts)).ends c, e.isBefore a = true) (hd : d ∈ p.ends c)
    (hbehind : d.isBefore a = false) : splitFrom parts d = none := by
  rw [Option.eq_none_iff_forall_ne_some]
  intro split hsplit
  have he := mem_ends_sequence_of_splitFrom hsplit
  have hbefore := Pattern.isBefore_of_mem_ends he (h _ (mem_ends_sequence_cons hd he))
  simp [hbefore] at hbehind

/-- The preferred match is the same in two texts, if all matches end inside of what they share. -/
theorem rel_splitFrom_shares {parts : List Pattern} (hparts : ∀ p ∈ parts, p.repeatsSingly = true)
    (h : c.Shares a a' c') (hin : ∀ e ∈ (Pattern.sequence parts).ends c, e.isBefore a = true)
    (hin' : ∀ e ∈ (Pattern.sequence parts).ends c', e.isBefore a' = true) :
    Option.Rel (fun r r' => r.1 = r'.1 ∧ r.2.Shares a a' r'.2)
      (splitFrom parts c) (splitFrom parts c') := by
  induction parts generalizing c c' with
  | nil => exact .some ⟨rfl, h⟩
  | cons p ps ih =>
    rw [splitFrom, splitFrom, ← findSome?_filter_eq fun d hd hbehind =>
        Option.map_eq_none_iff.mpr (splitFrom_eq_none_of_behind hin hd hbehind),
      ← findSome?_filter_eq fun d hd hbehind =>
        Option.map_eq_none_iff.mpr (splitFrom_eq_none_of_behind hin' hd hbehind)]
    refine rel_findSome? (Pattern.forall₂_filter_ends (hparts p (.head _)) h)
      fun d hd d' hd' hshares => ?_
    have hrest := ih (fun q hq => hparts q (.tail _ hq)) hshares
      (fun e he => hin e (mem_ends_sequence_cons (List.mem_of_mem_filter hd) he))
      (fun e he => hin' e (mem_ends_sequence_cons (List.mem_of_mem_filter hd') he))
    cases hr : splitFrom ps d <;> cases hr' : splitFrom ps d' <;> simp_all [h.upTo_eq hshares]

theorem rel_matchAt_shares {parts : List Pattern} (hparts : ∀ p ∈ parts, p.repeatsSingly = true)
    (h : c.Shares a a' c') (hin : ∀ e ∈ (Pattern.sequence parts).ends c, e.isBefore a = true)
    (hin' : ∀ e ∈ (Pattern.sequence parts).ends c', e.isBefore a' = true) :
    Option.Rel (fun m m' => m.parts = m'.parts ∧ m.stop.Shares a a' m'.stop)
      (matchAt parts c) (matchAt parts c') := by
  have hsplit := rel_splitFrom_shares hparts h hin hin'
  unfold matchAt
  cases hr : splitFrom parts c <;> cases hr' : splitFrom parts c' <;> simp_all

end

/-! ## Rewriting in two halves -/

/-- No match that starts at a place of the part `x`, which has `b` before it and `a` after it, goes
on behind the part. -/
def Confined (parts : List Pattern) (b x a : List Char) : Prop :=
  Along (fun b s => ∀ e ∈ (Pattern.sequence parts).ends ⟨b, s⟩, a.length ≤ e.ahead.length) b x a

/-- The last character of a text is of a class. -/
def EndsIn (P : Char → Prop) (s : List Char) : Prop := ∃ v ∈ s.getLast?, P v

section
variable {P : Char → Prop} {s t : List Char}

theorem not_endsIn_nil : ¬ EndsIn P [] := by
  rintro ⟨v, hv, -⟩
  simp at hv

theorem endsIn_append_iff (ht : t ≠ []) : EndsIn P (s ++ t) ↔ EndsIn P t := by
  rw [EndsIn, EndsIn, List.getLast?_append_of_ne_nil _ ht]

theorem EndsIn.append_left (h : EndsIn P t) (s : List Char) : EndsIn P (s ++ t) := by
  refine (endsIn_append_iff ?_).mpr h
  rintro rfl
  exact not_endsIn_nil h

end

section
variable {parts : List Pattern} {replacement : Match → List Char} {b x z r : List Char} {u : Char}
  {m : Match}

theorem Confined.of_append {w y a : List Char} (h : Confined parts b (w ++ y) a) :
    Confined parts (w.reverse ++ b) y a :=
  (along_append.mp h).2

/-- What is read behind a character is what lies ahead of it. -/
theorem eq_append_of_reads {w k : List Char} {e : Cursor}
    (h : Cursor.Reads ⟨b, w ++ u :: r⟩ (w ++ u :: k) e) : r = k ++ e.ahead := by
  have hahead : w ++ u :: r = (w ++ u :: k) ++ e.ahead := h.ahead
  simpa using hahead

/-- A part is confined if no match that starts in it reads the next character as well. -/
theorem confined_of_not_reads {a : List Char} (h : ∀ y w e k, x = y ++ w → w ≠ [] →
      e ∈ (Pattern.sequence parts).ends ⟨y.reverse ++ b, w ++ u :: a⟩ →
      ¬ Cursor.Reads ⟨y.reverse ++ b, w ++ u :: a⟩ (w ++ u :: k) e) :
    Confined parts b x (u :: a) := by
  rw [Confined, along_iff_forall]
  intro y v w hx e he
  obtain ⟨t, hread⟩ := Pattern.exists_reads he
  have hahead : (v :: w) ++ (u :: a) = t ++ e.ahead := hread.ahead
  rcases List.append_eq_append_iff.mp hahead with ⟨k, hk, hrest⟩ | ⟨k, -, hrest⟩
  · match k with
    | [] => exact (congrArg List.length hrest).le
    | u' :: k =>
      obtain ⟨rfl, -⟩ := List.cons.inj hrest
      exact absurd (hk ▸ hread) (h y (v :: w) e k hx (by simp) he)
  · rw [hrest]
    exact (List.suffix_append k _).length_le

/-- A match in a confined part ends there. -/
theorem Confined.exists_stop (h : Confined parts b (u :: x) z)
    (hm : matchAt parts ⟨b, u :: x ++ z⟩ = some m) :
    ∃ y, u :: x = m.text ++ y ∧ m.stop = ⟨m.text.reverse ++ b, y ++ z⟩ := by
  have hread := (reads_of_matchAt hm).2
  have hlength : z.length ≤ m.stop.ahead.length := by
    obtain ⟨⟨texts, e⟩, hsplit, rfl⟩ := Option.map_eq_some_iff.mp hm
    exact h.1 e (mem_ends_sequence_of_splitFrom hsplit)
  obtain ⟨y, hy, hstop⟩ : ∃ y, u :: x = m.text ++ y ∧ m.stop.ahead = y ++ z := by
    rcases List.append_eq_append_iff.mp hread.ahead with ⟨w, hw, hz⟩ | ⟨w, hw, hz⟩
    · obtain rfl : w = [] := by
        rw [← List.length_eq_zero_iff]
        rw [hz, List.length_append] at hlength
        omega
      exact ⟨[], by simpa using hw.symm, by simpa using hz.symm⟩
    · exact ⟨w, hw, hz⟩
  exact ⟨y, hy, Cursor.mk.injEq .. ▸ ⟨hread.behind, hstop⟩⟩

/-- What is next behind a confined part decides about the matches in it. -/
theorem map_parts_matchAt_eq (hparts : ∀ p ∈ parts, p.repeatsSingly = true) (hz : z ≠ [])
    (h : Confined parts b (u :: x) z) (h' : Confined parts b (u :: x) (z ++ r)) :
    (matchAt parts ⟨b, u :: x ++ z⟩).map (·.parts) =
      (matchAt parts ⟨b, u :: x ++ (z ++ r)⟩).map (·.parts) := by
  have hpos := List.length_pos_of_ne_nil hz
  have hbefore : ∀ e ∈ (Pattern.sequence parts).ends ⟨b, u :: x ++ z⟩, e.isBefore [] = true := by
    intro e he
    have hstop := h.1 e he
    simp only [Cursor.isBefore, List.length_nil, decide_eq_true_eq]
    omega
  have hbefore' : ∀ e ∈ (Pattern.sequence parts).ends ⟨b, u :: x ++ (z ++ r)⟩,
      e.isBefore r = true := by
    intro e he
    have hstop := h'.1 e he
    rw [List.length_append] at hstop
    simp only [Cursor.isBefore, decide_eq_true_eq]
    omega
  have hshares : Cursor.Shares [] r ⟨b, u :: x ++ z⟩ ⟨b, u :: x ++ (z ++ r)⟩ :=
    ⟨rfl, u :: x ++ z, by simp, by simp, by simp⟩
  have hrel := rel_matchAt_shares hparts hshares hbefore hbefore'
  cases hm : matchAt parts ⟨b, u :: x ++ z⟩ <;>
    cases hm' : matchAt parts ⟨b, u :: x ++ (z ++ r)⟩ <;> rw [hm, hm'] at hrel <;> simp_all

/-- A match in a confined part is there with any text behind, and ends at the same place. -/
theorem Confined.exists_match (hparts : ∀ p ∈ parts, p.repeatsSingly = true) (hz : z ≠ [])
    (h : Confined parts b (u :: x) z) (h' : Confined parts b (u :: x) (z ++ r))
    (hm : matchAt parts ⟨b, u :: x ++ z⟩ = some m) {y : List Char} (hy : u :: x = m.text ++ y) :
    ∃ m', matchAt parts ⟨b, u :: x ++ (z ++ r)⟩ = some m' ∧ m'.parts = m.parts ∧
      m'.stop = ⟨m.text.reverse ++ b, y ++ (z ++ r)⟩ := by
  have hsame := map_parts_matchAt_eq hparts hz h h'
  rw [hm, Option.map_some, eq_comm, Option.map_eq_some_iff] at hsame
  obtain ⟨m', hm', hparts'⟩ := hsame
  have htext : m'.text = m.text := by rw [Match.text, Match.text, hparts']
  obtain ⟨y', hy', hstop'⟩ := h'.exists_stop hm'
  rw [htext] at hy' hstop'
  obtain rfl : y' = y := List.append_cancel_left (hy'.symm.trans hy)
  exact ⟨m', hm', hparts', hstop'⟩

/-- Before a barrier, with `z` next behind it, a text is rewritten by itself. What comes out ends in
a character of a class, if the text does and all replacements do. -/
theorem Rewrites.exists_front {t₀ : List Char} (h : Rewrites parts replacement ⟨b, x ++ z⟩ t₀)
    (hparts : ∀ p ∈ parts, p.repeatsSingly = true)
    (hreplacement : ∀ m m' : Match, m.parts = m'.parts → replacement m = replacement m')
    (hlast : ∀ m, EndsIn P (replacement m)) (hz : z ≠ [])
    (hconfined : ∀ r, Confined parts b x (z ++ r)) :
    ∃ t, (x = [] → t = []) ∧ (EndsIn P x → EndsIn P t) ∧
      ∀ r s, Rewrites parts replacement ⟨x.reverse ++ b, z ++ r⟩ s →
        Rewrites parts replacement ⟨b, x ++ (z ++ r)⟩ (t ++ s) := by
  have hself : ∀ {b x : List Char}, (∀ r, Confined parts b x (z ++ r)) → Confined parts b x z :=
    fun h => by simpa using h []
  generalize hc : Cursor.mk b (x ++ z) = c at h
  induction h generalizing b x with
  | done b' => simp [hz] at hc
  | @skip b' a t u hno _ ih =>
    match x with
    | [] => exact ⟨[], fun _ => rfl, id, fun r s hs => hs⟩
    | v :: x =>
      obtain ⟨rfl, hx⟩ := Cursor.mk.inj hc
      obtain ⟨rfl, rfl⟩ := List.cons.inj hx
      obtain ⟨t, hnil, hend, ht⟩ := ih (fun r => (hconfined r).2) rfl
      refine ⟨v :: t, by simp, fun hv => ?_, fun r s hs => .skip ?_ (ht r s (by simpa using hs))⟩
      · by_cases hx : x = []
        · rwa [hnil hx, ← hx]
        · exact (hend ((endsIn_append_iff (s := [v]) hx).mp hv)).append_left [v]
      · have hsame := map_parts_matchAt_eq hparts hz (hself hconfined) (hconfined r)
        rw [show matchAt parts ⟨b, v :: x ++ z⟩ = none from hno] at hsame
        simpa using hsame.symm
  | @hit c m t hmatch hless _ ih =>
    match x with
    | [] => exact ⟨[], fun _ => rfl, id, fun r s hs => hs⟩
    | u :: x =>
      subst hc
      obtain ⟨y, hy, hstop⟩ := (hself hconfined).exists_stop hmatch
      obtain ⟨t, hnil, hend, ht⟩ := ih (fun r => (hy ▸ hconfined r).of_append) hstop.symm
      refine ⟨replacement m ++ t, by simp, fun hx => ?_, fun r s hs => ?_⟩
      · by_cases hynil : y = []
        · rw [hnil hynil, List.append_nil]
          exact hlast m
        · rw [hy, endsIn_append_iff hynil] at hx
          exact (hend hx).append_left _
      · obtain ⟨m', hm', hparts', hstop'⟩ :=
          (hself hconfined).exists_match hparts hz (hconfined r) hmatch hy
        have hlater : Rewrites parts replacement m'.stop (t ++ s) := by
          rw [hstop']
          exact ht r s (by simpa [hy] using hs)
        have hshort : m'.stop.ahead.length < (u :: x ++ (z ++ r)).length := by
          rw [hstop] at hless
          rw [hstop']
          simp only [List.length_append] at hless ⊢
          omega
        rw [hreplacement m m' hparts'.symm, List.append_assoc]
        exact .hit hm' hshort hlater

end

end AskMetrics.Text
