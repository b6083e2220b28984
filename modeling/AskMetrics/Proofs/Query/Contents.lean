import AskMetrics.Proofs.Query.LiteralSpans
import AskMetrics.Proofs.Query.Outside

/-!
# What literals say

A literal is its content between two quotes. Some rewritings of a text go over its quotes without
looking at them: what stands between two quotes is rewritten as it would be by itself, wherever it
stands. Such a rewriting does to the contents of closed literals just what it does to any text, and
it keeps the literals apart.
-/
namespace AskMetrics.Query

open AskMetrics.Text

/-- What stands between the quotes of a literal. -/
def LiteralAt.content (l : LiteralAt) : List Char := (l.text.drop 1).dropLast

/-- What stands between the quotes of each literal that masking delimits. -/
def contents (s : List Char) : List (List Char) := (literals s).map (·.content)

/-- A text without quotes. -/
def Unquoted (x : List Char) : Prop := ∀ u ∈ x, isQuote u = false

section
variable {b b' x y s t body : List Char} {c q : Char} {p : Quoting} {l : LiteralAt}
  {ls : List LiteralAt}

@[simp] theorem LiteralAt.content_mk : (LiteralAt.mk b (q :: (body ++ [q]))).content = body := by
  simp [content]

@[simp] theorem unquoted_nil : Unquoted [] := by simp [Unquoted]

theorem Unquoted.append (hx : Unquoted x) (hy : Unquoted y) : Unquoted (x ++ y) :=
  List.forall_mem_append.mpr ⟨hx, hy⟩

theorem unquoted_of_isBlank (hx : ∀ u ∈ x, isBlank u = true) : Unquoted x :=
  fun u hu => isQuote_of_isBlank (hx u hu)

/-! ## Text outside literals -/

namespace Delimits

/-- What stands before a text moves its literals, and does not change what they say. -/
theorem exists_behind (h : Delimits b s ls) (b' : List Char) :
    ∃ ls', Delimits b' s ls' ∧ ls'.map (·.content) = ls.map (·.content) := by
  induction h generalizing b' with
  | nil => exact ⟨[], .nil b', rfl⟩
  | @char b s c ls hc _ ih =>
    obtain ⟨ls', hls', hmap⟩ := ih (c :: b')
    exact ⟨ls', .char hc hls', hmap⟩
  | @literal b body s q ls hq hbody _ ih =>
    obtain ⟨ls', hls', hmap⟩ := ih ((q :: (body ++ [q])).reverse ++ b')
    exact ⟨_, .literal hq hbody hls', by simp [hmap]⟩

theorem contents_eq (h : Delimits b s ls) : contents s = ls.map (·.content) := by
  obtain ⟨ls', hls', hmap⟩ := h.exists_behind []
  rw [contents, hls'.literals_eq, hmap]

/-- Text without quotes may stand before the literals of a text. -/
theorem unquoted_append (hx : Unquoted x) (h : Delimits (x.reverse ++ b) s ls) :
    Delimits b (x ++ s) ls := by
  induction x generalizing b with
  | nil => exact h
  | cons c x ih =>
    exact .char (hx c (.head _)) (ih (fun u hu => hx u (.tail _ hu)) (by simpa using h))

/-- Text without quotes may stand behind the literals of a text. -/
theorem append_unquoted (h : Delimits b s ls) (hy : Unquoted y) : Delimits b (s ++ y) ls := by
  induction h with
  | nil b =>
    have hnil := unquoted_append hy (.nil (y.reverse ++ b))
    simpa using hnil
  | char hc _ ih => exact .char hc ih
  | literal hq hbody _ ih =>
    rw [List.cons_append, List.append_assoc, List.cons_append]
    exact .literal hq hbody ih

end Delimits

theorem exists_delimits (h : leavesOpen s = false) (b : List Char) : ∃ ls, Delimits b s ls := by
  obtain ⟨t, ht⟩ := leavesOpen_eq_false_iff.mp h
  exact ht.exists_delimits b

/-- A literal that is open is not closed by text without quotes. -/
theorem Quoting.after_eq_outside_iff (hp : p.Proper) (hy : Unquoted y) :
    p.after y = .outside ↔ p = .outside := by
  induction y generalizing p with
  | nil => rfl
  | cons c y ih =>
    have hc := hy c (.head _)
    rw [Quoting.after_cons, ih (hp.next c) fun u hu => hy u (.tail _ hu)]
    cases p with
    | outside => simp [Quoting.next, hc]
    | inside quote =>
      have hne : c ≠ quote := by
        rintro rfl
        exact absurd hp (by simp [Quoting.Proper, hc])
      simp only [Quoting.next, beq_iff_eq, hne, if_false]
      split_ifs <;> simp
    | escaped quote => simp [Quoting.next]

/-- Text without quotes around another text opens and closes no literal. -/
theorem leavesOpen_unquoted_around (hx : Unquoted x) (hy : Unquoted y) :
    leavesOpen (x ++ (s ++ y)) = leavesOpen s := by
  have hstart : Quoting.outside.after x = .outside :=
    (Quoting.after_eq_outside_iff (p := .outside) trivial hx).mpr rfl
  have hend := Quoting.after_eq_outside_iff (Quoting.Proper.after (p := .outside) trivial s) hy
  rw [leavesOpen, leavesOpen, Quoting.after_append, hstart, Quoting.after_append, Bool.eq_iff_iff,
    bne_iff_ne, bne_iff_ne, ne_eq, ne_eq, hend]

theorem contents_unquoted_around (hx : Unquoted x) (hy : Unquoted y) (h : leavesOpen s = false) :
    contents (x ++ (s ++ y)) = contents s := by
  obtain ⟨ls, hls⟩ := exists_delimits h x.reverse
  have hall : Delimits [] (x ++ (s ++ y)) ls :=
    .unquoted_append hx (by simpa using hls.append_unquoted hy)
  rw [hall.contents_eq, hls.contents_eq]

end

/-! ## Rewriting between quotes -/

/-- A rewriting that quotes separate. -/
structure Piecewise (f : List Char → List Char) : Prop where
  nil : f [] = []
  /-- A quote stays, and both sides of it are rewritten by themselves. -/
  splits : ∀ {q x y}, isQuote q = true → f (x ++ q :: y) = f x ++ q :: f y
  unquoted : ∀ {x}, Unquoted x → Unquoted (f x)
  /-- What can stand between two quotes still can. -/
  body : ∀ {q x}, isQuote q = true → Body q x → Body q (f x)

section
variable {f : List Char → List Char} {b d x s t : List Char} {ls : List LiteralAt}

theorem Skeleton.unquoted_append (hx : Unquoted x) (h : Skeleton s t) :
    Skeleton (x ++ s) (x ++ t) := by
  induction x with
  | nil => exact h
  | cons c x ih => exact .char (hx c (.head _)) (ih fun u hu => hx u (.tail _ hu))

namespace Piecewise

/-- A literal behind some text is rewritten with the text before and behind it by themselves. -/
theorem literal (hf : Piecewise f) {q : Char} (hq : isQuote q = true) (body : List Char) :
    f (x ++ q :: (body ++ q :: s)) = f x ++ q :: (f body ++ q :: f s) := by
  rw [hf.splits hq, hf.splits hq]

/-- The literals of a rewritten text. The induction carries the text `x` since the last literal,
which is rewritten as a whole. -/
theorem exists_delimits (hf : Piecewise f) (h : Delimits b s ls) (hx : Unquoted x) :
    ∃ ls', Delimits d (f (x ++ s)) ls' ∧
      ls'.map (·.content) = (ls.map (·.content)).map f := by
  induction h generalizing x d with
  | nil =>
    have hnil := Delimits.unquoted_append (hf.unquoted hx) (.nil ((f x).reverse ++ d))
    exact ⟨[], by simpa using hnil, rfl⟩
  | @char b s c ls hc _ ih =>
    obtain ⟨ls', hls', hmap⟩ := ih (x := x ++ [c]) (d := d) (hx.append (by simpa [Unquoted]))
    exact ⟨ls', by simpa using hls', hmap⟩
  | @literal b body s q ls hq hbody _ ih =>
    obtain ⟨ls', hls', hmap⟩ :=
      ih (x := []) (d := (q :: (f body ++ [q])).reverse ++ ((f x).reverse ++ d)) unquoted_nil
    rw [hf.literal hq]
    exact ⟨_, .unquoted_append (hf.unquoted hx) (.literal hq (hf.body hq hbody) hls'),
      by simp [hmap]⟩

/-- What a rewritten text is without the contents of its literals. -/
theorem skeleton_append (hf : Piecewise f) (h : Skeleton s t) (hx : Unquoted x) :
    Skeleton (f (x ++ s)) (f (x ++ t)) := by
  induction h generalizing x with
  | nil => exact skeleton_self (by simpa [Unquoted] using hf.unquoted hx)
  | @char c s t hc _ ih =>
    have hmore := ih (x := x ++ [c]) (hx.append (by simpa [Unquoted]))
    simpa using hmore
  | @literal q body s t hq hbody _ ih =>
    have hempty := hf.literal (x := x) (s := t) hq []
    rw [hf.nil, List.nil_append, List.nil_append] at hempty
    rw [hf.literal hq, hempty]
    exact .unquoted_append (hf.unquoted hx) (.literal hq (hf.body hq hbody) (ih unquoted_nil))

theorem skeleton (hf : Piecewise f) (h : Skeleton s t) : Skeleton (f s) (f t) :=
  hf.skeleton_append h unquoted_nil

/-- The contents of the literals in a rewritten text. -/
theorem contents_eq (hf : Piecewise f) (h : leavesOpen s = false) :
    contents (f s) = (contents s).map f := by
  obtain ⟨ls, hls⟩ := Query.exists_delimits h []
  obtain ⟨ls', hls', hmap⟩ := hf.exists_delimits (d := []) hls unquoted_nil
  rw [List.nil_append] at hls'
  rw [hls'.contents_eq, hls.contents_eq, hmap]

/-- No literal says something else exactly when each content stays as it is. -/
theorem contents_eq_self_iff (hf : Piecewise f) (h : leavesOpen s = false) :
    contents (f s) = contents s ↔ ∀ x ∈ contents s, f x = x := by
  rw [hf.contents_eq h]
  simpa using List.map_inj_left (l := contents s) (f := f) (g := id)

end Piecewise

end

/-! ## Counting quotes -/

/-- What has been read of a literal. -/
def Quoting.HasRead : Quoting → List Char → Prop
  | outside, x => x = []
  | inside quote, x => isQuote quote = true ∧ x.head? = some quote
  | escaped quote, x => isQuote quote = true ∧ x.head? = some quote

/-- A content between two equal quotes. -/
def LiteralAt.IsWhole (l : LiteralAt) : Prop :=
  ∃ q, isQuote q = true ∧ l.text = q :: (l.content ++ [q])

section
variable {b x s : List Char} {c : Char} {p : Quoting} {l : LiteralAt} {ls : List LiteralAt}

namespace Quoting.HasRead

theorem next (h : p.HasRead x) (hnext : p.next c ≠ .outside) : (p.next c).HasRead (x ++ [c]) := by
  cases p with
  | outside =>
    obtain rfl : x = [] := h
    by_cases hc : isQuote c = true <;> simp_all [Quoting.next, HasRead]
  | inside quote =>
    simp only [Quoting.next] at hnext ⊢
    split_ifs at hnext ⊢ <;> simp_all [HasRead]
  | escaped quote => simp_all [Quoting.next, HasRead]

/-- A literal that closes is whole. -/
theorem isWhole (h : p.HasRead x) (hp : p ≠ .outside) (hnext : p.next c = .outside) :
    (LiteralAt.mk b (x ++ [c])).IsWhole := by
  cases p with
  | outside => exact absurd rfl hp
  | inside quote =>
    obtain ⟨hquote, hhead⟩ := h
    obtain ⟨body, rfl⟩ := List.head?_eq_some_iff.mp hhead
    simp only [Quoting.next] at hnext
    split_ifs at hnext with hslash hclose
    obtain rfl : c = quote := by simpa using hclose
    exact ⟨c, hquote, by simp [LiteralAt.content]⟩
  | escaped quote => simp [Quoting.next] at hnext

end Quoting.HasRead

theorem literalsFrom_cons (p : Quoting) (b x : List Char) (c : Char) (s : List Char) :
    literalsFrom p b x (c :: s) =
      if p.next c ≠ .outside then literalsFrom (p.next c) b (x ++ [c]) s
      else if p = .outside then literalsFrom .outside (c :: b) [] s
      else ⟨b, x ++ [c]⟩ :: literalsFrom .outside ((x ++ [c]).reverse ++ b) [] s := by
  rw [literalsFrom.eq_def]
  cases p <;> cases hnext : Quoting.next _ c <;> simp [hnext]

/-- The literals of a text, one after another, are what is left when other characters are left
out. -/
theorem isWhole_and_sublist_literalsFrom (h : p.HasRead x) :
    (∀ l ∈ literalsFrom p b x s, l.IsWhole) ∧
      ((literalsFrom p b x s).flatMap (·.text)).Sublist (x ++ s) := by
  induction s generalizing p b x with
  | nil => simp [literalsFrom]
  | cons c s ih =>
    rw [literalsFrom_cons]
    split_ifs with hnext hp
    · obtain ⟨hwhole, hsub⟩ := ih (h.next hnext)
      exact ⟨hwhole, by simpa using hsub⟩
    · obtain ⟨hwhole, hsub⟩ := ih (p := .outside) rfl
      exact ⟨hwhole, (hsub.cons c).trans (List.sublist_append_right x _)⟩
    · obtain ⟨hwhole, hsub⟩ := ih (p := .outside) rfl
      refine ⟨List.forall_mem_cons.mpr ⟨h.isWhole hp (not_not.mp hnext), hwhole⟩, ?_⟩
      simpa using hsub.append_left (x ++ [c])

theorem countP_isQuote_flatMap_text (h : ∀ l ∈ ls, l.IsWhole) :
    (ls.flatMap (·.text)).countP isQuote =
      (ls.map (·.content)).flatten.countP isQuote + 2 * ls.length := by
  induction ls with
  | nil => rfl
  | cons l ls ih =>
    obtain ⟨⟨q, hq, htext⟩, hls⟩ := List.forall_mem_cons.mp h
    have hrest := ih hls
    simp only [List.flatMap_cons, List.map_cons, List.flatten_cons, List.countP_append,
      List.length_cons]
    rw [htext, hrest]
    simp only [List.countP_cons, List.countP_append, hq, if_true, List.countP_nil]
    omega

/-- A text has the quotes that are in its contents and those around them. -/
theorem countP_isQuote_contents_le (s : List Char) :
    (contents s).flatten.countP isQuote + 2 * (contents s).length ≤ s.countP isQuote := by
  obtain ⟨hwhole, hsub⟩ :=
    isWhole_and_sublist_literalsFrom (p := .outside) (b := []) (x := []) (s := s) rfl
  have hcount := countP_isQuote_flatMap_text hwhole
  rw [contents, List.length_map, literals, ← hcount]
  exact hsub.countP_le

/-- A text whose literals are closed has no others. -/
theorem countP_isQuote_contents (h : leavesOpen s = false) :
    s.countP isQuote = (contents s).flatten.countP isQuote + 2 * (contents s).length := by
  obtain ⟨ls, hls⟩ := exists_delimits h []
  rw [hls.contents_eq, List.length_map]
  clear h
  generalize ([] : List Char) = b at hls
  induction hls with
  | nil => rfl
  | char hc _ ih => rw [List.countP_cons_of_neg (by simp [hc]), ih]
  | @literal b body s q ls hq hbody _ ih =>
    simp only [List.countP_cons, List.countP_append, hq, if_true, ih, List.map_cons,
      LiteralAt.content_mk, List.flatten_cons, List.length_cons]
    omega

end

end AskMetrics.Query
