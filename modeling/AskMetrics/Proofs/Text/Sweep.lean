import AskMetrics.Proofs.Text.Rewrite
import AskMetrics.Proofs.Text.Word

/-!
# Texts cleared of a shape

All matches of a shape are replaced. Is the shape gone then? The replacement can bring it back: by
what it says, by what it says together with the text around it, or by a word that begins where none
began before. Here are the conditions under which it is gone, and under which the replacement of
another shape does not bring it back.

A shape that begins a word fits at a place when a word can begin there and the text ahead begins in
a certain way. So only that way matters, and not the shape.
-/
namespace AskMetrics.Text

/-- There is no place along `x` where `At` holds of the text behind and `L` of the text ahead. -/
def AbsentAlong (At L : List Char → Prop) (b x a : List Char) : Prop :=
  Along (fun b a => ¬ (At b ∧ L a)) b x a

/-- There is no place in a text where `At` holds of the text behind and `L` of the text ahead. -/
def Absent (At L : List Char → Prop) (s : List Char) : Prop := AbsentAlong At L [] s []

/-- The shape `p` fits where a word can begin and `L` holds of the text ahead. It begins with a
letter. -/
structure FitsAtWords (p : Pattern) (L : List Char → Prop) : Prop where
  fits_iff : ∀ b a, (∃ d, d ∈ p.ends ⟨b, a⟩) ↔ Opens b ∧ L a
  letter : ∀ a, L a → ∃ u ∈ a.head?, u.isAlpha = true

/-- There is no place along `x` where a word can begin and `L` holds of the text ahead. -/
def ClearedAlong (L : List Char → Prop) (b x a : List Char) : Prop :=
  Along (fun b a => ¬ (Opens b ∧ L a)) b x a

/-- There is no place in a text where a word can begin and `L` holds of the text ahead. -/
def Cleared (L : List Char → Prop) (s : List Char) : Prop := ClearedAlong L [] s []

section
variable {p : Pattern} {L : List Char → Prop}

/-- A word is cleared when what `L` says does not hold at its start. -/
theorem clearedAlong_word {b x a : List Char} (hx : ∀ u ∈ x, isNameChar u = true)
    (hstart : ¬ L (x ++ a)) : ClearedAlong L b x a := by
  refine along_word hx (fun h => hstart h.2) fun b a u v hu _ h => ?_
  have hopens := opens_cons.mp h.1
  simp [isWord_of_isNameChar hu] at hopens

/-- A shape that begins a word does not occur exactly when the text is cleared of it. -/
theorem FitsAtWords.occurs_eq_false_iff (h : FitsAtWords p L) {s : List Char} :
    occurs p s = false ↔ Cleared L s := by
  rw [Text.occurs_eq_false_iff, Cleared, ClearedAlong, along_iff_forall]
  constructor
  · rintro hnone y u z hs hfits
    obtain ⟨d, hd⟩ := (h.fits_iff _ _).mpr hfits
    exact hnone y.reverse (u :: z) (by simpa using hs) d (by simpa using hd)
  · intro hcleared b a hs d hd
    have hfits := (h.fits_iff b a).mp ⟨d, hd⟩
    obtain ⟨u, hu, -⟩ := h.letter a hfits.2
    obtain ⟨z, rfl⟩ := List.head?_eq_some_iff.mp hu
    exact hcleared b.reverse u z hs (by simpa using hfits)

end

/-! ## Replacing matches -/

/-- Replacing the matches of some parts does not bring back a place where `At` holds of the text
behind and `L` of the text ahead: not inside a replacement, not from before it into it, and not
behind it. Such a place has a character of the class `Starts` next. -/
structure Guarded (parts : List Pattern) (replacement : Match → List Char)
    (At L : List Char → Prop) (Starts : Char → Prop) : Prop where
  nonempty : ∀ c m, matchAt parts c = some m → m.stop.ahead.length < c.ahead.length
  /-- Of the text behind only the next character matters. -/
  nearest : ∀ u b b', At (u :: b) → At (u :: b')
  starts : ∀ a, L a → ∃ u ∈ a.head?, Starts u
  inside : ∀ c m b t, matchAt parts c = some m → Rewrites parts replacement m.stop t →
    AbsentAlong At L b (replacement m) t
  /-- What is ahead of a place before the replacement was ahead of it before. -/
  before : ∀ c m b x t, matchAt parts c = some m → Rewrites parts replacement m.stop t → x ≠ [] →
    c.behind = x.reverse ++ b → L (x ++ (replacement m ++ t)) → L (x ++ c.ahead)
  /-- What can begin behind a match could begin there before. -/
  behind : ∀ c m, matchAt parts c = some m → ∀ u ∈ m.stop.ahead.head?, Starts u → At m.stop.behind

namespace Guarded
variable {parts : List Pattern} {replacement : Match → List Char} {At L : List Char → Prop}
  {Starts : Char → Prop}

/-- What is ahead of a place in the rewritten text was ahead of it before. -/
theorem ahead_of_rewrites (h : Guarded parts replacement At L Starts) {c : Cursor} {t : List Char}
    (hrewrites : Rewrites parts replacement c t) {b x : List Char} (hx : x ≠ [])
    (hbehind : c.behind = x.reverse ++ b) (hL : L (x ++ t)) : L (x ++ c.ahead) := by
  induction hrewrites generalizing x with
  | done b => exact hL
  | @skip b' a t u _ _ ih =>
    have hlater := ih (x := x ++ [u]) (by simp) (by simpa using hbehind) (by simpa using hL)
    simpa using hlater
  | @hit c m t hmatch _ hrest _ => exact h.before c m b x t hmatch hrest hx hbehind hL

/-- The rewritten text has none of the places, if before each of them was one at which a match
starts. In the induction the texts behind the two places differ; but where such a place can be in
the rewritten text, it could be before. -/
theorem absentAlong_of_rewrites (h : Guarded parts replacement At L Starts) {c : Cursor}
    {t : List Char} (hrewrites : Rewrites parts replacement c t)
    (hold : Along (fun b a => matchAt parts ⟨b, a⟩ = none → ¬ (At b ∧ L a)) c.behind c.ahead [])
    {b : List Char} (hat : ∀ u ∈ c.ahead.head?, Starts u → At b → At c.behind) :
    AbsentAlong At L b t [] := by
  induction hrewrites generalizing b with
  | done b' => trivial
  | @skip b' a t u hno hrest ih =>
    obtain ⟨hhere, hlater⟩ := hold
    refine ⟨?_, ih hlater fun _ _ _ => h.nearest u b b'⟩
    rintro ⟨hb, hnew⟩
    rw [List.append_nil] at hnew hhere
    obtain ⟨v, hv, hstarts⟩ := h.starts _ hnew
    obtain rfl : u = v := by simpa using hv
    have hahead := h.ahead_of_rewrites hrest (x := [u]) (b := b') (by simp) (by simp) hnew
    exact hhere hno ⟨hat u rfl hstarts hb, hahead⟩
  | @hit c m t hmatch _ hrest ih =>
    have hread := (reads_of_matchAt hmatch).2
    rw [hread.ahead, along_append] at hold
    rw [hread.behind] at ih
    have hinside := h.inside c m b t hmatch hrest
    refine along_append.mpr ⟨by rwa [List.append_nil], ih hold.2 fun u hu hstarts _ => ?_⟩
    exact hread.behind ▸ h.behind c m hmatch u hu hstarts

/-- A text has none of the places when matches are replaced that start at each of them. -/
theorem absent_replaceAll (h : Guarded parts replacement At L Starts)
    (hfits : ∀ b a, At b → L a → matchAt parts ⟨b, a⟩ ≠ none) (s : List Char) :
    Absent At L (replaceAll parts replacement s) := by
  refine h.absentAlong_of_rewrites (rewrites_replaceAll h.nonempty s) ?_ fun _ _ _ hat => hat
  rw [along_iff_forall]
  exact fun x u z _ hno hplace => hfits _ _ hplace.1 hplace.2 hno

/-- A text that has none of the places has none when the matches are replaced. -/
theorem keeps_absent (h : Guarded parts replacement At L Starts) {s : List Char}
    (hs : Absent At L s) : Absent At L (replaceAll parts replacement s) := by
  refine h.absentAlong_of_rewrites (rewrites_replaceAll h.nonempty s) ?_ fun _ _ _ hat => hat
  rw [Absent, AbsentAlong, along_iff_forall] at hs
  rw [along_iff_forall]
  exact fun x u z hsplit _ => hs x u z hsplit

end Guarded

/-! ## One text for every match -/

theorem first_of_matchAt_singleton {p : Pattern} {c : Cursor} {m : Match}
    (h : matchAt [p] c = some m) : p.first c = some m.stop := by
  rw [matchAt_singleton, Option.map_eq_some_iff] at h
  obtain ⟨d, hd, rfl⟩ := h
  exact hd

theorem mem_ends_of_matchAt_singleton {p : Pattern} {c : Cursor} {m : Match}
    (h : matchAt [p] c = some m) : m.stop ∈ p.ends c :=
  Pattern.mem_ends_of_first (first_of_matchAt_singleton h)

/-- Replacing the matches of `p` by `y` does not bring back what `L` says: not inside `y`, not from
before it into it, and not by a word that begins behind it. -/
structure Contained (p : Pattern) (y : List Char) (L : List Char → Prop) : Prop where
  nonempty : ∀ c d, p.first c = some d → d.ahead.length < c.ahead.length
  inside : ∀ b a, ClearedAlong L b y a
  closed : ∀ b, Opens (y.reverse ++ b)
  /-- What is ahead of a place before the replacement was ahead of it before. -/
  before : ∀ c d x a, p.first c = some d → x ≠ [] → L (x ++ (y ++ a)) → L (x ++ c.ahead)
  /-- Behind a match no letter goes on a word. -/
  behind : ∀ c d, p.first c = some d → ∀ u ∈ d.ahead.head?, u.isAlpha = true → Opens d.behind

namespace Contained
variable {p : Pattern} {y : List Char} {L : List Char → Prop}

theorem guarded (h : Contained p y L) (hL : ∀ a, L a → ∃ u ∈ a.head?, u.isAlpha = true) :
    Guarded [p] (fun _ => y) Opens L (·.isAlpha = true) where
  nonempty c m hm := h.nonempty c m.stop (first_of_matchAt_singleton hm)
  nearest _ _ _ hu := opens_cons.mpr (opens_cons.mp hu)
  starts := hL
  inside _ _ b t _ _ := h.inside b t
  before c m _ x t hm _ hx _ := h.before c m.stop x t (first_of_matchAt_singleton hm) hx
  behind c m hm := h.behind c m.stop (first_of_matchAt_singleton hm)

/-- A text is cleared of a shape when its matches are replaced. -/
theorem cleared_replaceAll (h : Contained p y L) (hp : FitsAtWords p L) (s : List Char) :
    Cleared L (replaceAll [p] (fun _ => y) s) := by
  refine (h.guarded hp.letter).absent_replaceAll (fun b a hb ha => ?_) s
  obtain ⟨d, hd⟩ := (hp.fits_iff b a).mpr ⟨hb, ha⟩
  rw [matchAt_singleton, ne_eq, Option.map_eq_none_iff, Pattern.first_eq_none_iff]
  exact List.ne_nil_of_mem hd

/-- A text that is cleared of a shape stays so when the matches of another one are replaced. -/
theorem keeps_cleared (h : Contained p y L) {q : Pattern} (hq : FitsAtWords q L) {s : List Char}
    (hs : Cleared L s) :
    Cleared L (replaceAll [p] (fun _ => y) s) :=
  (h.guarded hq.letter).keeps_absent hs

end Contained

end AskMetrics.Text
