import AskMetrics.Proofs.Text.Exchange
import AskMetrics.Proofs.Text.Word
import Mathlib.Data.List.TakeWhile

/-!
# Matches in texts with exchanged parts

Two places are twins when the texts before them and the texts after them are the same up to an
exchange of parts. A pattern that reads its way from part to part, and never stops inside one,
fits at both of them or at neither. So a scan finds the same matches in both texts, although a
match found early decides where the search for the next one begins.
-/
namespace AskMetrics.Text

/-- Places with the same text before them and after them, up to an exchange of parts. -/
structure Twins (B : List Char → List Char → Prop) (c c' : Cursor) : Prop where
  behind : Exchanged (Mirrored B) c.behind c'.behind
  ahead : Exchanged B c.ahead c'.ahead

namespace Twins
variable {B : List Char → List Char → Prop} {c c' d : Cursor} {f : Char → Bool}
  {x x' a' : List Char}

theorem symm (hsymm : ∀ x y, B x y → B y x) (h : Twins B c c') : Twins B c' c :=
  ⟨h.behind.symm fun _ _ => hsymm _ _, h.ahead.symm hsymm⟩

theorem atEdge_eq (hB : Steady B) (h : Twins B c c') : c.atEdge = c'.atEdge := by
  rw [Cursor.atEdge, Cursor.atEdge, h.behind.head?_eq hB.mirrored, h.ahead.head?_eq hB]

/-- Reading corresponding texts goes on to twins. -/
theorem read (h : Twins B c c') (hread : c.Reads x d) (hx : Exchanged B x x')
    (ha : Exchanged B d.ahead a') : Twins B d ⟨x'.reverse ++ c'.behind, a'⟩ := by
  refine ⟨?_, ha⟩
  rw [hread.behind]
  exact hx.reverse.append h.behind

/-- Reading a whole run of a class. -/
theorem run (hB : Steady B) (hf : Homogeneous B f) (h : Twins B c c') (hread : c.Reads x d)
    (hx : ∀ u ∈ x, f u = true) (hd : ∀ u ∈ d.ahead.head?, f u = false) :
    ∃ x' d', c'.Reads x' d' ∧ (∀ u ∈ x', f u = true) ∧ Exchanged B x x' ∧ Twins B d d' := by
  have hrun := h.ahead.takeWhile hB hf
  have hrest := h.ahead.dropWhile hB hf
  rw [hread.ahead, takeWhile_append_eq hx hd] at hrun
  rw [hread.ahead, dropWhile_append_eq hx hd] at hrest
  have hsplit : c'.ahead = c'.ahead.takeWhile f ++ c'.ahead.dropWhile f :=
    List.takeWhile_append_dropWhile.symm
  exact ⟨_, _, ⟨hsplit, rfl⟩, fun u hu => List.mem_takeWhile_imp hu, hrun, h.read hread hrun hrest⟩

end Twins

/-- A place that is inside no part has a twin in the other text. -/
theorem Exchanged.exists_twins {B : List Char → List Char → Prop} {R : Char → Char → Prop}
    (hB : ∀ x y, B x y → x.IsChain R) {s t : List Char} (h : Exchanged B s t) {c : Cursor}
    (hs : s = c.behind.reverse ++ c.ahead)
    (hseam : ∀ u ∈ c.behind.head?, ∀ v ∈ c.ahead.head?, ¬ R u v) :
    ∃ c' : Cursor, t = c'.behind.reverse ++ c'.ahead ∧ Twins B c c' := by
  subst hs
  obtain ⟨x', a', rfl, hx, ha⟩ := h.split hB (by simpa using hseam)
  exact ⟨⟨x'.reverse, a'⟩, by simp, by simpa using hx.reverse, ha⟩

/-! ## Patterns that read from part to part -/

/-- A pattern that takes twins to twins. -/
def Carries (B : List Char → List Char → Prop) (p : Pattern) : Prop :=
  ∀ c c' d, Twins B c c' → d ∈ p.ends c → ∃ d' ∈ p.ends c', Twins B d d'

/-- A pattern that fits at a place if it fits at its twin. -/
def Meets (B : List Char → List Char → Prop) (p : Pattern) : Prop :=
  ∀ c c' d, Twins B c c' → d ∈ p.ends c → ∃ d', d' ∈ p.ends c'

/-- A pattern that does not fit before a character of a class. -/
def AvoidsAtStart (f : Char → Bool) (p : Pattern) : Prop :=
  ∀ c d, d ∈ p.ends c → ∀ u ∈ c.ahead.head?, f u = false

section
variable {B : List Char → List Char → Prop} {p q : Pattern} {f g : Char → Bool}

namespace AvoidsAtStart

theorem one (h : ∀ u, g u = true → f u = false) : AvoidsAtStart f (.one g) := by
  intro c d hd u hu
  obtain ⟨v, hv, hread⟩ := Pattern.mem_ends_one.mp hd
  obtain rfl : v = u := by simpa [hread.ahead] using hu
  exact h v hv

theorem char {u : Char} (h : f u = false) : AvoidsAtStart f (.char u) :=
  one fun v hv => by
    obtain rfl : v = u := by simpa using hv
    exact h

theorem literal {s : String} (h : s.toList.head?.any (fun u => !f u) = true) :
    AvoidsAtStart f (.literal s) := by
  intro c d hd u hu
  have hread := Pattern.mem_ends_literal.mp hd
  obtain ⟨v, hv, hfv⟩ := (Option.any_eq_true ..).mp h
  obtain ⟨x, hx⟩ := List.head?_eq_some_iff.mp hv
  obtain rfl : v = u := by simpa [hread.ahead, hx] using hu
  simpa using hfv

theorem words {ws : List String} (h : ∀ w ∈ ws, w.toList.head?.any (fun u => !f u) = true) :
    AvoidsAtStart f (.oneOf (ws.map .literal)) := by
  intro c d hd
  obtain ⟨w, hw, hread⟩ := Pattern.mem_ends_oneOf_literal.mp hd
  exact literal (h w hw) c d (Pattern.mem_ends_literal.mpr hread)

theorem atEnd : AvoidsAtStart f .atEnd := by
  intro c d hd
  simp [(Pattern.mem_ends_atEnd.mp hd).1]

theorem orElse (hp : AvoidsAtStart f p) (hq : AvoidsAtStart f q) :
    AvoidsAtStart f (p.orElse q) :=
  fun c d hd => (Pattern.mem_ends_orElse.mp hd).elim (hp c d) (hq c d)

theorem andThen (hp : AvoidsAtStart f p) : AvoidsAtStart f (p.andThen q) := by
  intro c d hd
  obtain ⟨e, he, -⟩ := Pattern.mem_ends_andThen.mp hd
  exact hp c e he

end AvoidsAtStart

namespace Carries

theorem edge (hB : Steady B) : Carries B .edge := by
  intro c c' d h hd
  obtain ⟨hedge, rfl⟩ := Pattern.mem_ends_edge.mp hd
  exact ⟨c', Pattern.mem_ends_edge.mpr ⟨by rwa [← h.atEdge_eq hB], rfl⟩, h⟩

/-- A class of characters that start no part. -/
theorem one (hB : Steady B) (hf : ∀ x y, B x y → ∀ u ∈ x.head?, f u = false) :
    Carries B (.one f) := by
  intro c c' d h hd
  obtain ⟨u, hu, hread⟩ := Pattern.mem_ends_one.mp hd
  have hahead := h.ahead
  rw [hread.ahead, List.singleton_append] at hahead
  have hstart : ∀ x y, B x y → x.head? ≠ some u := by
    intro x y hxy hx
    simp [hf x y hxy u hx] at hu
  obtain ⟨a', ha', hrest⟩ := hahead.cons_inv hB hstart
  exact ⟨⟨u :: c'.behind, a'⟩, Pattern.mem_ends_one.mpr ⟨u, hu, ⟨ha', rfl⟩⟩,
    h.read hread (.refl [u]) hrest⟩

theorem andThen (hp : Carries B p) (hq : Carries B q) : Carries B (p.andThen q) := by
  intro c c' e h he
  obtain ⟨d, hd, hde⟩ := Pattern.mem_ends_andThen.mp he
  obtain ⟨d', hd', htwins⟩ := hp c c' d h hd
  obtain ⟨e', he', htwins'⟩ := hq d d' e htwins hde
  exact ⟨e', Pattern.mem_ends_andThen.mpr ⟨d', hd', he'⟩, htwins'⟩

theorem char (hB : Steady B) {u : Char} (hu : ∀ x y, B x y → x.head? ≠ some u) :
    Carries B (.char u) := by
  refine one hB fun x y hxy v hv => ?_
  have hne : v ≠ u := fun huv => hu x y hxy (huv ▸ hv)
  simpa using hne

theorem literal (hB : Steady B) {s : String}
    (hs : ∀ u ∈ s.toList, ∀ x y, B x y → x.head? ≠ some u) : Carries B (.literal s) := by
  intro c c' d h hd
  have hread := Pattern.mem_ends_literal.mp hd
  have hahead := h.ahead
  rw [hread.ahead] at hahead
  obtain ⟨a', ha', hrest⟩ := hahead.append_inv hB hs
  exact ⟨_, Pattern.mem_ends_literal.mpr ⟨ha', rfl⟩, h.read hread (.refl _) hrest⟩

theorem words (hB : Steady B) {ws : List String}
    (hws : ∀ w ∈ ws, ∀ u ∈ w.toList, ∀ x y, B x y → x.head? ≠ some u) :
    Carries B (.oneOf (ws.map .literal)) := by
  intro c c' d h hd
  obtain ⟨w, hw, hread⟩ := Pattern.mem_ends_oneOf_literal.mp hd
  obtain ⟨d', hd', htwins⟩ := literal hB (hws w hw) c c' d h (Pattern.mem_ends_literal.mpr hread)
  exact ⟨d', Pattern.mem_ends_oneOf_literal.mpr ⟨w, hw, Pattern.mem_ends_literal.mp hd'⟩, htwins⟩

end Carries

namespace Meets

/-- A last character, which may start a part. -/
theorem one (hB : Steady B) : Meets B (.one f) := by
  intro c c' d h hd
  obtain ⟨u, hu, hread⟩ := Pattern.mem_ends_one.mp hd
  have hhead : c'.ahead.head? = some u := by
    rw [← h.ahead.head?_eq hB, hread.ahead, List.singleton_append, List.head?_cons]
  obtain ⟨a', ha'⟩ := List.head?_eq_some_iff.mp hhead
  exact ⟨⟨u :: c'.behind, a'⟩, Pattern.mem_ends_one.mpr ⟨u, hu, ⟨ha', rfl⟩⟩⟩

theorem atEnd (hB : Steady B) : Meets B .atEnd := by
  intro c c' d h hd
  have hnil := (h.ahead.eq_nil_iff hB).mp (Pattern.mem_ends_atEnd.mp hd).1
  exact ⟨c', Pattern.mem_ends_atEnd.mpr ⟨hnil, rfl⟩⟩

theorem orElse (hp : Meets B p) (hq : Meets B q) : Meets B (p.orElse q) := by
  intro c c' d h hd
  rcases Pattern.mem_ends_orElse.mp hd with hd | hd
  · exact (hp c c' d h hd).imp fun _ hd' => Pattern.mem_ends_orElse.mpr (.inl hd')
  · exact (hq c c' d h hd).imp fun _ hd' => Pattern.mem_ends_orElse.mpr (.inr hd')

theorem carries_then (hp : Carries B p) (hq : Meets B q) : Meets B (p.andThen q) := by
  intro c c' e h he
  obtain ⟨d, hd, hde⟩ := Pattern.mem_ends_andThen.mp he
  obtain ⟨d', hd', htwins⟩ := hp c c' d h hd
  obtain ⟨e', he'⟩ := hq d d' e htwins hde
  exact ⟨e', Pattern.mem_ends_andThen.mpr ⟨d', hd', he'⟩⟩

/-- A run of a class and then something that does not go on with it. -/
theorem run_then (hB : Steady B) (hf : Homogeneous B f) (hstart : AvoidsAtStart f q)
    (hq : Meets B q) : Meets B ((Pattern.many (.one f)).andThen q) := by
  intro c c' e h he
  obtain ⟨d, hd, hde⟩ := Pattern.mem_ends_andThen.mp he
  obtain ⟨x, hx, hread⟩ := Pattern.mem_ends_many_one.mp hd
  obtain ⟨x', d', hread', hx', -, htwins⟩ := h.run hB hf hread hx (hstart d e hde)
  obtain ⟨e', he'⟩ := hq d d' e htwins hde
  exact ⟨e', Pattern.mem_ends_andThen.mpr
    ⟨d', Pattern.mem_ends_many_one.mpr ⟨x', hx', hread'⟩, he'⟩⟩

/-- The same for a run that is not empty. -/
theorem some_run_then (hB : Steady B) (hf : Homogeneous B f) (hstart : AvoidsAtStart f q)
    (hq : Meets B q) : Meets B ((Pattern.some (.one f)).andThen q) := by
  intro c c' e h he
  obtain ⟨d, hd, hde⟩ := Pattern.mem_ends_andThen.mp he
  obtain ⟨u, x, hu, hx, hread⟩ := Pattern.mem_ends_some_one.mp hd
  have hrun : ∀ v ∈ u :: x, f v = true := by simpa [hu] using hx
  obtain ⟨x', d', hread', hx', hexchanged, htwins⟩ := h.run hB hf hread hrun (hstart d e hde)
  obtain ⟨e', he'⟩ := hq d d' e htwins hde
  have hne : x' ≠ [] := mt (hexchanged.eq_nil_iff hB).mpr (by simp)
  obtain ⟨u', y, rfl⟩ := List.exists_cons_of_ne_nil hne
  exact ⟨e', Pattern.mem_ends_andThen.mpr ⟨d', Pattern.mem_ends_some_one.mpr
    ⟨u', y, hx' u' (.head _), fun v hv => hx' v (.tail _ hv), hread'⟩, he'⟩⟩

/-- A shape that occurs in a text, from places inside no part, occurs in the other text. -/
theorem occurs {R : Char → Char → Prop} (hB : ∀ x y, B x y → x.IsChain R) (hp : Meets B p)
    (hseam : ∀ c d, d ∈ p.ends c → ∀ u ∈ c.behind.head?, ∀ v ∈ c.ahead.head?, ¬ R u v)
    {s t : List Char} (h : Exchanged B s t) (hs : occurs p s = true) : occurs p t = true := by
  obtain ⟨b, a, d, hplace, hd⟩ := occurs_eq_true_iff.mp hs
  obtain ⟨⟨b', a'⟩, hplace', htwins⟩ :=
    h.exists_twins hB (c := ⟨b, a⟩) hplace (hseam ⟨b, a⟩ d hd)
  obtain ⟨d', hd'⟩ := hp _ _ d htwins hd
  exact occurs_eq_true_iff.mpr ⟨b', a', d', hplace', hd'⟩

end Meets

end

/-! ## What a scan finds -/

/-- The matches that a scan from a place finds. -/
inductive Finds (parts : List Pattern) : Cursor → List Match → Prop
  | done (b : List Char) : Finds parts ⟨b, []⟩ []
  /-- A character where no match starts. -/
  | skip {b a : List Char} {u : Char} {ms : List Match}
    (hno : matchAt parts ⟨b, u :: a⟩ = none) (rest : Finds parts ⟨u :: b, a⟩ ms) :
    Finds parts ⟨b, u :: a⟩ ms
  /-- A match that covers some text. -/
  | hit {c : Cursor} {m : Match} {ms : List Match} (hmatch : matchAt parts c = some m)
    (hless : m.stop.ahead.length < c.ahead.length) (rest : Finds parts m.stop ms) :
    Finds parts c (m :: ms)

namespace Finds
variable {parts : List Pattern} {c : Cursor} {ms : List Match}

theorem filterMap_scanFrom (h : Finds parts c ms) {n : Nat} (hn : c.ahead.length ≤ n) :
    (scanFrom parts n c).filterMap Segment.match? = ms := by
  induction h generalizing n with
  | done b => cases n <;> simp [scanFrom]
  | skip hno _ ih =>
    cases n with
    | zero => simp at hn
    | succ n =>
      simp only [scanFrom, hno]
      rw [List.filterMap_cons_none (by rfl), ih (Nat.le_of_succ_le_succ hn)]
  | @hit c m ms hmatch hless _ ih =>
    obtain ⟨b, a⟩ := c
    cases a with
    | nil => simp at hless
    | cons u a =>
      cases n with
      | zero => simp at hn
      | succ n =>
        have hrest : m.stop.ahead.length ≤ n := by
          simp only [List.length_cons] at hn hless
          omega
        simp only [scanFrom, hmatch]
        rw [if_pos hless, List.filterMap_cons_some (by rfl), ih hrest]

theorem findAll_eq {s : List Char} (h : Finds parts (.start s) ms) : findAll parts s = ms :=
  h.filterMap_scanFrom (Nat.le_refl _)

end Finds

/-- A scan for matches that are not empty finds some list of them. -/
theorem exists_finds {parts : List Pattern}
    (hless : ∀ c m, matchAt parts c = some m → m.stop.ahead.length < c.ahead.length) :
    ∀ c : Cursor, ∃ ms, Finds parts c ms
  | ⟨b, []⟩ => ⟨[], .done b⟩
  | ⟨b, u :: a⟩ => by
    cases hm : matchAt parts ⟨b, u :: a⟩ with
    | none =>
      obtain ⟨ms, hms⟩ := exists_finds hless ⟨u :: b, a⟩
      exact ⟨ms, .skip hm hms⟩
    | some m =>
      have hshort : m.stop.ahead.length < a.length + 1 := hless _ _ hm
      obtain ⟨ms, hms⟩ := exists_finds hless m.stop
      exact ⟨m :: ms, .hit hm hshort hms⟩
  termination_by c => c.ahead.length

section
variable {B : List Char → List Char → Prop} {parts : List Pattern} {P : Match → Bool}

/-- A text in which no match starts is passed over. -/
theorem Finds.skip_append {x b a : List Char} {ms : List Match}
    (hno : Along (fun b a => matchAt parts ⟨b, a⟩ = none) b x a)
    (h : Finds parts ⟨x.reverse ++ b, a⟩ ms) : Finds parts ⟨b, x ++ a⟩ ms := by
  induction x generalizing b with
  | nil => exact h
  | cons u x ih => exact .skip hno.1 (ih hno.2 (by simpa using h))

/-- A scan finds corresponding matches in corresponding texts. The first scan goes through a
part character by character while the second one is still before it, so the induction allows for
the rest `x` of a part before the place that has a twin. -/
theorem Finds.exists_twins (hB : Steady B) (hsymm : ∀ x y, B x y → B y x)
    (hparts : ∀ x y b a, B x y → Along (fun b a => matchAt parts ⟨b, a⟩ = none) b x a)
    (hmatch : ∀ c c' m, Twins B c c' → matchAt parts c = some m →
      ∃ m', matchAt parts c' = some m' ∧ P m = P m' ∧ Twins B m.stop m'.stop)
    (hless : ∀ c m, matchAt parts c = some m → m.stop.ahead.length < c.ahead.length)
    {c : Cursor} {ms : List Match} (h : Finds parts c ms) {x a : List Char} {c' : Cursor}
    (hx : c.ahead = x ++ a) (hno : Along (fun b a => matchAt parts ⟨b, a⟩ = none) c.behind x a)
    (htwins : Twins B ⟨x.reverse ++ c.behind, a⟩ c') :
    ∃ ms', Finds parts c' ms' ∧ List.Forall₂ (fun m m' => P m = P m') ms ms' := by
  obtain ⟨b', a'⟩ := c'
  induction h generalizing x a b' a' with
  | done b =>
    obtain ⟨rfl, rfl⟩ := List.append_eq_nil_iff.mp hx.symm
    obtain rfl : a' = [] := (htwins.ahead.eq_nil_iff hB).mp rfl
    exact ⟨[], .done b', .nil⟩
  | @skip b a₀ u ms hnone _ ih =>
    cases x with
    | cons v x =>
      obtain ⟨rfl, rfl⟩ := List.cons.inj hx
      exact ih rfl hno.2 b' a' (by simpa using htwins)
    | nil =>
      obtain rfl : u :: a₀ = a := hx
      have hbehind := htwins.behind
      have hahead := htwins.ahead
      generalize hw : u :: a₀ = w at hahead
      cases hahead with
      | nil => simp at hw
      | @keep v s t rest =>
        obtain ⟨rfl, rfl⟩ := List.cons.inj hw
        have hnone' : matchAt parts ⟨b', u :: t⟩ = none := by
          rw [Option.eq_none_iff_forall_ne_some]
          intro m' hm'
          obtain ⟨m, hm, -⟩ := hmatch _ _ m' (htwins.symm hsymm) hm'
          exact Option.some_ne_none m (hm.symm.trans hnone)
        obtain ⟨ms', hms', hall⟩ :=
          ih (x := []) rfl trivial (u :: b') t ⟨.keep u hbehind, rest⟩
        exact ⟨ms', .skip hnone' hms', hall⟩
      | @swap p q s t hpq rest =>
        obtain ⟨v, p, rfl⟩ := List.exists_cons_of_ne_nil (hB.ne_nil hpq)
        obtain ⟨rfl, rfl⟩ := List.cons.inj hw
        have hinside := (hparts _ _ b s hpq).2
        have hafter : Twins B ⟨p.reverse ++ u :: b, s⟩ ⟨q.reverse ++ b', t⟩ := by
          refine ⟨?_, rest⟩
          simpa using (Exchanged.single hpq).reverse.append hbehind
        obtain ⟨ms', hms', hall⟩ := ih rfl hinside (q.reverse ++ b') t hafter
        exact ⟨ms', .skip_append (hparts q _ b' t (hsymm _ _ hpq)) hms', hall⟩
  | @hit c m ms hm hshort _ ih =>
    cases x with
    | cons v x =>
      have hnone := hno.1
      rw [← List.cons_append, ← hx] at hnone
      exact absurd hm (by simp [hnone])
    | nil =>
      obtain rfl : c.ahead = a := hx
      obtain ⟨m', hm', hP, hstop⟩ := hmatch c ⟨b', a'⟩ m htwins hm
      obtain ⟨ms', hms', hall⟩ := ih (x := []) rfl trivial _ _ hstop
      exact ⟨m' :: ms', .hit hm' (hless _ _ hm') hms', .cons hP hall⟩

/-- What is looked for among all matches is found in both texts or in neither. -/
theorem any_findAll_eq (hB : Steady B) (hsymm : ∀ x y, B x y → B y x)
    (hparts : ∀ x y b a, B x y → Along (fun b a => matchAt parts ⟨b, a⟩ = none) b x a)
    (hmatch : ∀ c c' m, Twins B c c' → matchAt parts c = some m →
      ∃ m', matchAt parts c' = some m' ∧ P m = P m' ∧ Twins B m.stop m'.stop)
    (hless : ∀ c m, matchAt parts c = some m → m.stop.ahead.length < c.ahead.length)
    {s t : List Char} (h : Exchanged B s t) : (findAll parts s).any P = (findAll parts t).any P := by
  obtain ⟨ms, hms⟩ := exists_finds hless (.start s)
  have hstart : Twins B (.start s) (.start t) := ⟨.nil, h⟩
  obtain ⟨ms', hms', hall⟩ :=
    hms.exists_twins hB hsymm hparts hmatch hless (x := []) rfl trivial hstart
  rw [hms.findAll_eq, hms'.findAll_eq]
  clear hms hms'
  induction hall with
  | nil => rfl
  | cons hP _ ih => rw [List.any_cons, List.any_cons, hP, ih]

end

end AskMetrics.Text
