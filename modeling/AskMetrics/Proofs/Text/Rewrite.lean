import AskMetrics.Proofs.Text.Scan

/-!
# Rewriting a text from left to right

Replacing all matches goes through a text once. `Rewrites` describes this without fuel, for the text
behind any place, so that a rewritten text can be put together from parts, the last part first.

A match depends on what lies behind a place in one way only: by whether a word could begin there. So
the rest of a text is rewritten in the same way behind any two texts that end alike.
-/
namespace AskMetrics.Text

/-- The text behind a place with all matches replaced. -/
inductive Rewrites (parts : List Pattern) (replacement : Match → List Char) :
    Cursor → List Char → Prop
  | done (b : List Char) : Rewrites parts replacement ⟨b, []⟩ []
  /-- A character where no match starts. -/
  | skip {b a t : List Char} {u : Char} (hno : matchAt parts ⟨b, u :: a⟩ = none)
    (rest : Rewrites parts replacement ⟨u :: b, a⟩ t) :
    Rewrites parts replacement ⟨b, u :: a⟩ (u :: t)
  /-- A match that covers some text. -/
  | hit {c : Cursor} {m : Match} {t : List Char} (hmatch : matchAt parts c = some m)
    (hless : m.stop.ahead.length < c.ahead.length) (rest : Rewrites parts replacement m.stop t) :
    Rewrites parts replacement c (replacement m ++ t)

section
variable {parts : List Pattern} {replacement : Match → List Char} {c : Cursor} {s t : List Char}

namespace Rewrites

theorem flatMap_scanFrom (h : Rewrites parts replacement c t) {n : Nat} (hn : c.ahead.length ≤ n) :
    ((scanFrom parts n c).flatMap fun
      | .plain u => [u]
      | .hit m => replacement m) = t := by
  induction h generalizing n with
  | done b => cases n <;> rfl
  | skip hno _ ih =>
    cases n with
    | zero => simp at hn
    | succ n => simp [scanFrom, hno, ih (Nat.le_of_succ_le_succ hn)]
  | @hit c m t hmatch hless _ ih =>
    obtain ⟨b, a⟩ := c
    cases a with
    | nil => simp at hless
    | cons u a =>
      cases n with
      | zero => simp at hn
      | succ n =>
        have hrest : m.stop.ahead.length ≤ n := by
          simp only [List.length_cons] at hn hless
          omega
        simp only [scanFrom, hmatch]
        rw [if_pos hless, List.flatMap_cons, ih hrest]

theorem replaceAll_eq (h : Rewrites parts replacement (.start s) t) :
    replaceAll parts replacement s = t :=
  h.flatMap_scanFrom (Nat.le_refl _)

/-- A part in which no match starts is kept. -/
theorem keep {b x a : List Char} (hno : Along (fun b a => matchAt parts ⟨b, a⟩ = none) b x a)
    (h : Rewrites parts replacement ⟨x.reverse ++ b, a⟩ t) :
    Rewrites parts replacement ⟨b, x ++ a⟩ (x ++ t) := by
  induction x generalizing b with
  | nil => exact h
  | cons u x ih => exact .skip hno.1 (ih hno.2 (by simpa using h))

/-- Leaving out all matches leaves a part of the text. -/
theorem sublist (h : Rewrites parts (fun _ => []) c t) : t.Sublist c.ahead := by
  induction h with
  | done b => exact .refl _
  | skip _ _ ih => exact ih.cons_cons _
  | @hit c m t hmatch _ _ ih =>
    rw [(reads_of_matchAt hmatch).2.ahead]
    exact ih.trans (List.sublist_append_right ..)

/-- A text that stays as it is when matches are left out has none. -/
theorem along_of_length_le (h : Rewrites parts (fun _ => []) c t)
    (hlength : c.ahead.length ≤ t.length) :
    Along (fun b a => matchAt parts ⟨b, a⟩ = none) c.behind c.ahead [] := by
  induction h with
  | done b => trivial
  | skip hno _ ih => exact ⟨by simpa using hno, ih (Nat.le_of_succ_le_succ hlength)⟩
  | hit _ hless rest _ =>
    have hrest := rest.sublist.length_le
    rw [List.nil_append] at hlength
    omega

end Rewrites

/-- Where matches are not empty, every text can be rewritten. -/
theorem exists_rewrites (replacement : Match → List Char)
    (hless : ∀ c m, matchAt parts c = some m → m.stop.ahead.length < c.ahead.length) :
    ∀ c : Cursor, ∃ t, Rewrites parts replacement c t
  | ⟨b, []⟩ => ⟨[], .done b⟩
  | ⟨b, u :: a⟩ => by
    cases hm : matchAt parts ⟨b, u :: a⟩ with
    | none =>
      obtain ⟨t, ht⟩ := exists_rewrites replacement hless ⟨u :: b, a⟩
      exact ⟨_, .skip hm ht⟩
    | some m =>
      have hshort : m.stop.ahead.length < a.length + 1 := hless _ _ hm
      obtain ⟨t, ht⟩ := exists_rewrites replacement hless m.stop
      exact ⟨_, .hit hm hshort ht⟩
  termination_by c => c.ahead.length

/-- A part of a text stays in front if whatever replaces a match that starts in it begins with the
rest of the part. -/
theorem exists_rewrites_append
    (hless : ∀ c m, matchAt parts c = some m → m.stop.ahead.length < c.ahead.length)
    {b x a : List Char} (hkept : ∀ w r m, x = w ++ r → r ≠ [] →
      matchAt parts ⟨w.reverse ++ b, r ++ a⟩ = some m → r <+: replacement m) :
    ∃ t, Rewrites parts replacement ⟨b, x ++ a⟩ (x ++ t) := by
  induction x generalizing b with
  | nil => exact exists_rewrites replacement hless ⟨b, a⟩
  | cons u x ih =>
    cases hm : matchAt parts ⟨b, u :: x ++ a⟩ with
    | none =>
      obtain ⟨t, ht⟩ := ih (b := u :: b) fun w r m hx hr hmatch =>
        hkept (u :: w) r m (by rw [hx, List.cons_append]) hr (by simpa using hmatch)
      exact ⟨t, .skip hm ht⟩
    | some m =>
      obtain ⟨k, hk⟩ := hkept [] (u :: x) m rfl (by simp) hm
      obtain ⟨t, ht⟩ := exists_rewrites replacement hless m.stop
      refine ⟨k ++ t, ?_⟩
      rw [← List.append_assoc, hk]
      exact .hit hm (hless _ _ hm) ht

theorem rewrites_replaceAll
    (hless : ∀ c m, matchAt parts c = some m → m.stop.ahead.length < c.ahead.length)
    (s : List Char) : Rewrites parts replacement (.start s) (replaceAll parts replacement s) := by
  obtain ⟨t, ht⟩ := exists_rewrites replacement hless (.start s)
  rwa [ht.replaceAll_eq]

end

/-- Each match that starts along `x` is replaced by itself. -/
def Settled (parts : List Pattern) (replacement : Match → List Char) (b x a : List Char) : Prop :=
  Along (fun b a => ∀ m, matchAt parts ⟨b, a⟩ = some m → replacement m = m.text) b x a

section
variable {parts : List Pattern} {replacement : Match → List Char} {b x a : List Char}

theorem settled_of_matchAt_eq_none (h : Along (fun b a => matchAt parts ⟨b, a⟩ = none) b x a) :
    Settled parts replacement b x a := by
  rw [Settled, along_iff_forall]
  intro y u z hx m hm
  rw [along_iff_forall.mp h y u z hx] at hm
  cases hm

theorem Rewrites.eq_ahead {c : Cursor} {t : List Char} (h : Rewrites parts replacement c t)
    (hsettled : Settled parts replacement c.behind c.ahead []) : t = c.ahead := by
  induction h with
  | done b => rfl
  | skip _ _ ih => exact congrArg (List.cons _) (ih hsettled.2)
  | @hit c m t hmatch hless _ ih =>
    have hread := (reads_of_matchAt hmatch).2
    obtain ⟨b, a⟩ := c
    cases a with
    | nil => simp at hless
    | cons u a =>
      have hsame : replacement m = m.text := hsettled.1 m (by simpa using hmatch)
      rw [Settled, hread.ahead, along_append, ← hread.behind] at hsettled
      rw [hsame, ih hsettled.2, ← hread.ahead]

/-- A settled text stays as it is. -/
theorem Settled.replaceAll_eq {s : List Char} (h : Settled parts replacement [] s [])
    (hless : ∀ c m, matchAt parts c = some m → m.stop.ahead.length < c.ahead.length) :
    replaceAll parts replacement s = s :=
  (rewrites_replaceAll hless s).eq_ahead h

end

/-! ## What lies behind a place -/

/-- Whether a pattern does not ask for the start of the text. -/
def Pattern.isFloating : Pattern → Bool
  | atStart => false
  | andThen p q => p.isFloating && q.isFloating
  | orElse p q => p.isFloating && q.isFloating
  | many p => p.isFloating
  | _ => true

/-- Two places with the same text ahead. At both of them a word could begin, or at neither. -/
structure Cursor.Alike (c c' : Cursor) : Prop where
  ahead : c.ahead = c'.ahead
  behind : c.behind.head?.any isWord = c'.behind.head?.any isWord

namespace Cursor.Alike
variable {c c' d d' : Cursor}

theorem upTo_eq (h : c.Alike c') (h' : d.Alike d') : c.upTo d = c'.upTo d' := by
  rw [upTo, upTo, h.ahead, h'.ahead]

end Cursor.Alike

section
variable {R : Cursor → Cursor → Prop} {step : Cursor → List Cursor} {c c' : Cursor}

/-- Related steps repeated from related places. -/
theorem forall₂_repeated {step' : Cursor → List Cursor}
    (hstep : ∀ c c', R c c' → List.Forall₂ R (step c) (step' c')) {n : Nat} (h : R c c')
    {rest rest' : List Cursor} (hrest : List.Forall₂ R rest rest') :
    List.Forall₂ R (repeated step n c rest) (repeated step' n c' rest') := by
  induction n generalizing c c' rest rest' with
  | zero => exact .cons h hrest
  | succ n ih =>
    rw [repeated, repeated]
    have hstop : List.Forall₂ R (c :: rest) (c' :: rest') := .cons h hrest
    have hnext := hstep c c' h
    generalize step c = next at hnext
    generalize step' c' = next' at hnext
    induction hnext with
    | nil => exact hstop
    | cons hd _ hds => exact ih hd hds

theorem Pattern.forall₂_ends {p : Pattern} (hp : p.isFloating = true) (h : c.Alike c') :
    List.Forall₂ Cursor.Alike (p.ends c) (p.ends c') := by
  induction p generalizing c c' with
  | one f =>
    obtain ⟨b, a⟩ := c
    obtain ⟨b', a'⟩ := c'
    obtain rfl : a = a' := h.ahead
    cases a with
    | nil => exact .nil
    | cons u a =>
      by_cases hu : f u = true
      · simpa [ends, hu] using ⟨rfl, rfl⟩
      · simp [ends, hu]
  | edge =>
    have hedge : c.atEdge = c'.atEdge := by
      rw [Cursor.atEdge, Cursor.atEdge, h.ahead, h.behind]
    by_cases hc : c'.atEdge = true <;> simp [ends, hedge, hc, h]
  | atStart => simp [isFloating] at hp
  | atEnd =>
    by_cases hc : c'.ahead = [] <;> simp [ends, h.ahead, hc, h]
  | empty => simpa [ends] using h
  | andThen p q ihp ihq =>
    obtain ⟨hp, hq⟩ := Bool.and_eq_true_iff.mp hp
    have hfirst := ihp hp h
    rw [ends, ends]
    generalize p.ends c = first at hfirst
    generalize p.ends c' = first' at hfirst
    induction hfirst with
    | nil => exact .nil
    | cons hd _ ih => exact List.rel_append (ihq hq hd) ih
  | orElse p q ihp ihq =>
    obtain ⟨hp, hq⟩ := Bool.and_eq_true_iff.mp hp
    exact List.rel_append (ihp hp h) (ihq hq h)
  | many p ih =>
    rw [ends, ends, h.ahead]
    exact forall₂_repeated (fun _ _ hcc' => ih hp hcc') h .nil

/-- The first results of related searches. -/
theorem rel_findSome? {α β : Type} {S : α → β → Prop} {f : Cursor → Option α}
    {g : Cursor → Option β} {cs ds : List Cursor} (h : List.Forall₂ R cs ds)
    (hfg : ∀ c ∈ cs, ∀ d ∈ ds, R c d → Option.Rel S (f c) (g d)) :
    Option.Rel S (cs.findSome? f) (ds.findSome? g) := by
  induction h with
  | nil => exact .none
  | @cons c d cs ds hcd _ ih =>
    have hhead := hfg c (.head _) d (.head _) hcd
    replace ih := ih fun c hc d hd => hfg c (.tail _ hc) d (.tail _ hd)
    rw [List.findSome?_cons, List.findSome?_cons]
    cases hf : f c <;> cases hg : g d <;> simp_all

/-- The preferred match at alike places has the same parts and ends at alike places. -/
theorem rel_splitFrom {parts : List Pattern} (hparts : ∀ p ∈ parts, p.isFloating = true)
    (h : c.Alike c') : Option.Rel (fun r r' => r.1 = r'.1 ∧ r.2.Alike r'.2)
      (splitFrom parts c) (splitFrom parts c') := by
  induction parts generalizing c c' with
  | nil => exact .some ⟨rfl, h⟩
  | cons p ps ih =>
    refine rel_findSome? (Pattern.forall₂_ends (hparts p (.head _)) h) fun d _ d' _ hd => ?_
    have hrest := ih (fun q hq => hparts q (.tail _ hq)) hd
    cases hr : splitFrom ps d <;> cases hr' : splitFrom ps d' <;> simp_all [h.upTo_eq hd]

theorem rel_matchAt {parts : List Pattern} (hparts : ∀ p ∈ parts, p.isFloating = true)
    (h : c.Alike c') : Option.Rel (fun m m' => m.parts = m'.parts ∧ m.stop.Alike m'.stop)
      (matchAt parts c) (matchAt parts c') := by
  have hsplit := rel_splitFrom hparts h
  unfold matchAt
  cases hr : splitFrom parts c <;> cases hr' : splitFrom parts c' <;> simp_all

/-- The same text is rewritten in the same way behind another one, by patterns that do not ask for
the start and replacements that only look at what was matched. -/
theorem Rewrites.alike {parts : List Pattern} {replacement : Match → List Char} {t : List Char}
    (hparts : ∀ p ∈ parts, p.isFloating = true)
    (hreplacement : ∀ m m' : Match, m.parts = m'.parts → replacement m = replacement m')
    (h : Rewrites parts replacement c t) (halike : c.Alike c') :
    Rewrites parts replacement c' t := by
  induction h generalizing c' with
  | done b =>
    obtain ⟨b', a'⟩ := c'
    obtain rfl : [] = a' := halike.ahead
    exact .done b'
  | @skip b a t u hno _ ih =>
    obtain ⟨b', a'⟩ := c'
    obtain rfl : u :: a = a' := halike.ahead
    have hsame := rel_matchAt hparts halike
    rw [hno] at hsame
    refine .skip ?_ (ih ⟨rfl, rfl⟩)
    cases hm : matchAt parts ⟨b', u :: a⟩ <;> simp_all
  | @hit c m t hmatch hless _ ih =>
    have hsame := rel_matchAt hparts halike
    rw [hmatch] at hsame
    cases hm : matchAt parts c' with
    | none => simp [hm] at hsame
    | some m' =>
      obtain ⟨hparts', hstop⟩ : m.parts = m'.parts ∧ m.stop.Alike m'.stop := by simpa [hm] using hsame
      rw [hreplacement m m' hparts']
      exact .hit hm (by rwa [← hstop.ahead, ← halike.ahead]) (ih hstop)

/-- A settled part is settled behind another text, too. -/
theorem Settled.alike {parts : List Pattern} {replacement : Match → List Char}
    {b b' x a : List Char} (hparts : ∀ p ∈ parts, p.isFloating = true)
    (hreplacement : ∀ m m' : Match, m.parts = m'.parts → replacement m = replacement m')
    (h : Settled parts replacement b x a) (hb : b.head?.any isWord = b'.head?.any isWord) :
    Settled parts replacement b' x a := by
  induction x generalizing b b' with
  | nil => trivial
  | cons u x ih =>
    refine ⟨fun m' hm' => ?_, ih h.2 rfl⟩
    have halike : Cursor.Alike ⟨b, u :: (x ++ a)⟩ ⟨b', u :: (x ++ a)⟩ := ⟨rfl, hb⟩
    have hsame := rel_matchAt hparts halike
    rw [hm'] at hsame
    cases hm : matchAt parts ⟨b, u :: (x ++ a)⟩ with
    | none => simp [hm] at hsame
    | some m =>
      obtain ⟨hequal, -⟩ : m.parts = m'.parts ∧ m.stop.Alike m'.stop := by simpa [hm] using hsame
      rw [← hreplacement m m' hequal, h.1 m hm, Match.text, Match.text, hequal]

end

end AskMetrics.Text
