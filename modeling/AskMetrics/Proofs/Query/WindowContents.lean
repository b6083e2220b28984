import AskMetrics.Proofs.Query.Contents
import AskMetrics.Proofs.Query.Selectors

/-!
# Windows reach into literals

Every check on a query leaves out what its literals say, but a window does not: it is put in place
of all range selectors of the text. A selector has no quote in it, so it lies between two quotes or
outside all literals, and no window opens or closes a literal. What is outside the literals and what
each of them says is rewritten by itself, in the same way. A label value stays as it is exactly
when every selector in it is the one of the window.
-/
namespace AskMetrics.Query

open AskMetrics.Text

section
variable {s t w x y body : List Char} {q : Char}

/-! ## Quotes -/

/-- A body goes on behind characters that are neither quotes nor backslashes. -/
theorem Body.append_iff (hq : isQuote q = true) (hx : ∀ u ∈ x, IsUnquoted u) :
    Body q (x ++ s) ↔ Body q s := by
  induction x with
  | nil => rfl
  | cons u x ih =>
    obtain ⟨hu, hslash⟩ := hx u (.head _)
    have hne : u ≠ q := by
      rintro rfl
      simp [hq] at hu
    rw [List.cons_append, ← ih fun v hv => hx v (.tail _ hv)]
    generalize x ++ s = r
    constructor
    · intro h
      cases h with
      | char _ _ rest => exact rest
      | escape => exact absurd rfl hslash
    · exact .char hne hslash

/-- What is between two quotes stays so with other ranges. A range may follow a backslash, which
takes its bracket along, so the second part is about the text behind a backslash. -/
theorem body_of_exchanged (hq : isQuote q = true) (h : Exchanged Ranges s t) :
    (Body q s → Body q t) ∧ ∀ c s', s = c :: s' → Body q s' → ∃ d t', t = d :: t' ∧ Body q t' := by
  induction h with
  | nil => exact ⟨id, by simp⟩
  | keep u _ ih =>
    refine ⟨fun h => ?_, fun c s' hs h => ?_⟩
    · cases h with
      | char hne hslash rest => exact .char hne hslash (ih.1 rest)
      | escape c rest =>
        obtain ⟨d, t', rfl, ht'⟩ := ih.2 c _ rfl rest
        exact .escape d ht'
    · obtain ⟨rfl, rfl⟩ := List.cons.inj hs
      exact ⟨_, _, rfl, ih.1 h⟩
  | @swap x y s t hxy _ ih =>
    have hy := hxy.symm.isUnquoted
    refine ⟨fun h => ?_, fun c s' hs h => ?_⟩
    · exact (Body.append_iff hq hy).mpr (ih.1 ((Body.append_iff hq hxy.isUnquoted).mp h))
    · have hx := hxy.isUnquoted
      obtain ⟨hi, hj⟩ := hxy
      obtain ⟨rfl, rfl⟩ := List.cons.inj hs
      have hrest := ih.1 ((Body.append_iff hq fun u hu => hx u (.tail _ hu)).mp h)
      exact ⟨_, _, rfl, (Body.append_iff hq fun u hu => hy u (.tail _ hu)).mpr hrest⟩

theorem IsSelector.not_mem_of_isQuote (h : IsSelector w) (hq : isQuote q = true) : q ∉ w := by
  intro hmem
  obtain ⟨i, hi, rfl⟩ := h.exists_span
  have hunquoted := (Ranges.mk hi hi).isUnquoted q hmem
  simp [IsUnquoted, hq] at hunquoted

/-- Quotes separate the rewriting of selectors. -/
theorem piecewise_replaceRanges (window : Option Nat) :
    Piecewise (replaceRanges · window) where
  nil := by
    match window with
    | none | some 0 | some (_ + 1) => rfl
  splits {q x y} hq := by
    match window with
    | none | some 0 => rfl
    | some (n + 1) =>
      obtain ⟨d, hd⟩ := exists_isCut x
      obtain ⟨e, he⟩ := exists_isCut y
      have hboth : IsCut (d.append (.keep q e)) (x ++ q :: y) := by
        rw [isCut_iff_divided (b := [])] at hd ⊢
        exact hd.append_cons definite_isSelector (fun hw => hw.not_mem_of_isQuote hq)
          (isCut_iff_divided.mp he)
      simp only [replaceRanges_eq n.succ_pos hboth, replaceRanges_eq n.succ_pos hd,
        replaceRanges_eq n.succ_pos he, Division.put_append, Division.text_append]
      rfl
  unquoted hx :=
    (exchanged_replaceRanges _ window).forall_mem
      (fun _ _ hxy u hu => (hxy.symm.isUnquoted u hu).1) hx
  body hq h := (body_of_exchanged hq (exchanged_replaceRanges _ window)).1 h

/-! ## Texts that stay -/

/-- A window leaves a text as it is when every selector in it is the one of the window. -/
theorem replaceRanges_eq_self_iff (window : Option Nat) :
    replaceRanges s window = s ↔ ∀ n, window = some n → 0 < n →
      ∀ w, IsSelector w → w <:+: s → w = minutesSelector n := by
  rcases window with _ | _ | n
  · simp [replaceRanges]
  · simp [replaceRanges]
  obtain ⟨d, hd⟩ := exists_isCut s
  rw [replaceRanges_eq n.succ_pos hd]
  constructor
  · rintro h _ ⟨⟩ - w hw hin
    have hput := hd.put (isSelector_minutesSelector (n + 1))
    rw [h] at hput
    have hmem := hput.mem_parts hw hin
    rw [Division.parts_put] at hmem
    exact List.eq_of_mem_replicate hmem
  · intro h
    have hparts : ∀ w ∈ d.parts, w = minutesSelector (n + 1) := fun w hw =>
      h _ rfl n.succ_pos w (hd.selector w hw) (hd.infix_of_mem_parts hw)
    rw [Division.put_eq_self hparts, hd.text_eq]

end

/-! ## Accepted queries -/

/-- A window rewrites an accepted query in pieces: what is outside the literals, which are closed
before and after, and what each literal says. So no literal says something else exactly when all
selectors in them are the one of the window, for a window of any length. -/
theorem contents_withWindow {raw : String} {q : CheckedQuery}
    (h : validate raw = .ok q ∨ screen raw = .ok (.query q)) (window : Option Nat) :
    (∃ t, Skeleton q.text.toList t ∧
      Skeleton (q.withWindow window).text.toList (replaceRanges t window)) ∧
    contents (q.withWindow window).text.toList =
      (contents q.text.toList).map (replaceRanges · window) ∧
    (contents (q.withWindow window).text.toList = contents q.text.toList ↔
      ∀ n, window = some n → 0 < n → ∀ x ∈ contents q.text.toList,
        ∀ w, IsSelector w → w <:+: x → w = minutesSelector n) := by
  obtain ⟨hpasses, rfl⟩ := passes_of_accepted h
  rw [CheckedQuery.withWindow, CheckedQuery.toList_text_ofText, CheckedQuery.toList_text_ofText]
  generalize normalize raw.toList = s at hpasses
  have hpiecewise := piecewise_replaceRanges window
  refine ⟨?_, hpiecewise.contents_eq hpasses.closed, ?_⟩
  · obtain ⟨t, ht⟩ := leavesOpen_eq_false_iff.mp hpasses.closed
    exact ⟨t, ht, hpiecewise.skeleton ht⟩
  · simp only [hpiecewise.contents_eq_self_iff hpasses.closed, replaceRanges_eq_self_iff]
    exact ⟨fun h n hn hpos x hx => h x hx n hn hpos, fun h x hx n hn hpos => h n hn hpos x hx⟩

/-- A query for a path with a character class that reads like a selector. -/
def classPath : CheckedQuery where
  text := "rate(http_hits\x7bpath=~\"/v[5m]\"\x7d[5m])"
  metrics := ["http_hits"]

/-- The window of the query is put into the path as well. -/
theorem contents_withWindow_classPath :
    validate classPath.text = .ok classPath ∧
      contents classPath.text.toList = ["/v[5m]".toList] ∧
      contents (classPath.withWindow (some 60)).text.toList = ["/v[60m]".toList] := by
  have haccepted : validate classPath.text = .ok classPath := by decide +kernel
  have hcontents : contents classPath.text.toList = ["/v[5m]".toList] := by decide +kernel
  refine ⟨haccepted, hcontents, ?_⟩
  rw [(contents_withWindow (.inl haccepted) (some 60)).2.1, hcontents]
  decide +kernel

/-- So a window changes what a literal says. -/
theorem contents_withWindow_ne :
    ¬ ∀ (raw : String) (q : CheckedQuery) (window : Option Nat), validate raw = .ok q →
      contents (q.withWindow window).text.toList = contents q.text.toList := by
  intro h
  have hkept := h classPath.text classPath (some 60) (by decide +kernel)
  revert hkept
  decide +kernel

end AskMetrics.Query
