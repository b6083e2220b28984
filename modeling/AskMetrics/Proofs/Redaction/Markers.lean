import AskMetrics.Proofs.Redaction.Secrets
import AskMetrics.Proofs.Text.Mention
import Mathlib.Data.List.Infix

/-!
# What redaction puts in

Each rule keeps a front of a match, cuts off the rest, and puts in a *seal*: the marker, with
separators in front of it or with the word that introduces a bearer token. Whoever looks for a word
in the redacted text finds it only if it was there before, provided that the word is apart from
seals: it cannot be inside of one, begin in one or reach into one.
-/
namespace AskMetrics.Redaction

open AskMetrics.Text

/-- A character that can stand between a name and a value. -/
def isSeparating (u : Char) : Bool := isBlank u || "\"'=:".toList.contains u

/-- What a rule puts in. -/
def IsSeal (z : List Char) : Prop :=
  z = bearerMarker ∨
    ∃ separators, z = separators ++ marker ∧ ∀ u ∈ separators, isSeparating u = true

/-- A match that is cut short, with a seal put in. -/
def Sealed (x y : List Char) : Prop := ∃ k r z, x = k ++ r ∧ y = k ++ z ∧ IsSeal z

theorem isSeal_marker : IsSeal marker := .inr ⟨[], rfl, by simp⟩

/-! ## The rules -/

/-- A shape that reads only characters of a class. -/
def ReadsOnly (f : Char → Bool) (p : Pattern) : Prop :=
  ∀ c d, d ∈ p.ends c → ∃ x, c.Reads x d ∧ ∀ u ∈ x, f u = true

namespace ReadsOnly
variable {f g : Char → Bool} {p q : Pattern}

theorem one (h : ∀ u, g u = true → f u = true) : ReadsOnly f (.one g) := by
  intro c d hd
  obtain ⟨u, hu, hread⟩ := Pattern.mem_ends_one.mp hd
  exact ⟨[u], hread, by simpa using h u hu⟩

theorem many_one (h : ∀ u, g u = true → f u = true) : ReadsOnly f (.many (.one g)) := by
  intro c d hd
  obtain ⟨x, hx, hread⟩ := Pattern.mem_ends_many_one.mp hd
  exact ⟨x, hread, fun u hu => h u (hx u hu)⟩

theorem optional (hp : ReadsOnly f p) : ReadsOnly f (.optional p) := by
  intro c d hd
  rcases Pattern.mem_ends_orElse.mp hd with hd | hd
  · exact hp c d hd
  · obtain rfl := Pattern.mem_ends_empty.mp hd
    exact ⟨[], .refl _, by simp⟩

theorem edge : ReadsOnly f .edge := by
  intro c d hd
  obtain ⟨-, rfl⟩ := Pattern.mem_ends_edge.mp hd
  exact ⟨[], .refl _, by simp⟩

theorem anyCase {s : String} (h : ∀ letter ∈ s.toList, ∀ u, sameLetter letter u = true → f u = true) :
    ReadsOnly f (.anyCase s) := by
  intro c d hd
  obtain ⟨x, hread, hx⟩ := Pattern.exists_sameLetter_of_mem_ends hd
  refine ⟨x, hread, fun u hu => ?_⟩
  obtain ⟨letter, hletter, hsame⟩ := hx u hu
  exact h letter hletter u hsame

theorem orElse (hp : ReadsOnly f p) (hq : ReadsOnly f q) : ReadsOnly f (.orElse p q) :=
  fun c d hd => (Pattern.mem_ends_orElse.mp hd).elim (hp c d) (hq c d)

theorem andThen (hp : ReadsOnly f p) (hq : ReadsOnly f q) : ReadsOnly f (.andThen p q) := by
  intro c d hd
  obtain ⟨e, he, hd⟩ := Pattern.mem_ends_andThen.mp hd
  obtain ⟨x, hread, hx⟩ := hp c e he
  obtain ⟨y, hread', hy⟩ := hq e d hd
  exact ⟨x ++ y, hread.trans hread', List.forall_mem_append.mpr ⟨hx, hy⟩⟩

end ReadsOnly

/-- What stands between a name and a value. -/
def assignment : Pattern :=
  .sequence [maybeOf "\"'", .blanks, .one fun c => c == '=' || c == ':', .blanks, maybeOf "\"'"]

theorem readsOnly_assignment : ReadsOnly isSeparating assignment := by
  have hquote : ReadsOnly isSeparating (maybeOf "\"'") := by
    refine .optional (.one fun u hu => ?_)
    have hmem : u = '"' ∨ u = '\'' := by simpa using hu
    rcases hmem with rfl | rfl <;> decide
  have hblanks : ReadsOnly isSeparating .blanks :=
    .many_one fun u hu => by simp [isSeparating, hu]
  refine .andThen hquote (.andThen hblanks (.andThen (.one fun u hu => ?_)
    (.andThen hblanks hquote)))
  have hmem : u = '=' ∨ u = ':' := by simpa using hu
  rcases hmem with rfl | rfl <;> decide

section
variable {c : Cursor} {m : Match}

/-- The name and what stands between it and the value are kept, but for a plural s. -/
theorem sealed_namedValue (h : matchAt namedValue.parts c = some m) :
    Sealed m.text (namedValue.replacement m) := by
  obtain ⟨⟨texts, stop⟩, hsplit, rfl⟩ := Option.map_eq_some_iff.mp h
  obtain ⟨d₁, name, _, rfl, -, -, hsplit⟩ := exists_of_splitFrom_cons hsplit
  obtain ⟨d₂, plural, _, rfl, -, -, hsplit⟩ := exists_of_splitFrom_cons hsplit
  obtain ⟨d₃, separators, rest, rfl, hends, hread, -⟩ := exists_of_splitFrom_cons hsplit
  obtain ⟨x, hread', hx⟩ := readsOnly_assignment _ _ hends
  obtain rfl : separators = x := by rw [← hread.upTo, hread'.upTo]
  refine ⟨name, plural ++ (separators ++ rest.flatten), separators ++ marker, ?_, ?_,
    .inr ⟨separators, rfl, hx⟩⟩
  · simp [Match.text]
  · simp [namedValue, Match.part]

theorem sealed_addressParameter (h : matchAt addressParameter.parts c = some m) :
    Sealed m.text (addressParameter.replacement m) := by
  obtain ⟨⟨texts, stop⟩, hsplit, rfl⟩ := Option.map_eq_some_iff.mp h
  obtain ⟨d₁, name, rest, rfl, -, -, -⟩ := exists_of_splitFrom_cons hsplit
  refine ⟨name, rest.flatten, marker, ?_, ?_, isSeal_marker⟩
  · simp [Match.text]
  · simp [addressParameter, Match.part]

end

/-- A rule cuts its matches short and puts in seals. -/
theorem exchanged_apply {rule : Rule} (h : rule ∈ rules) (s : List Char) :
    Exchanged Sealed s (rule.apply s) := by
  refine exchanged_replaceAll fun c m hm => ?_
  simp only [rules, List.mem_cons, List.not_mem_nil, or_false] at h
  rcases h with rfl | rfl | rfl | rfl | rfl
  · exact sealed_namedValue hm
  · exact sealed_addressParameter hm
  · exact ⟨[], m.text, _, rfl, rfl, .inl rfl⟩
  · exact ⟨[], m.text, _, rfl, rfl, isSeal_marker⟩
  · exact ⟨[], m.text, _, rfl, rfl, isSeal_marker⟩

/-! ## Words apart from seals -/

/-- A word that has nothing to do with seals when texts are spelled by `f`: it has a character that
no seal has, it has neither the first nor the last character of the marker, no rest of it begins the
word that introduces a bearer token, and it does not end in a separator. -/
def isApart (f : Char → List Char) (w : List Char) : Bool :=
  let stamp := marker.flatMap f
  let bearer := "Bearer ".toList.flatMap f
  w.any (fun u => !isSeparating u && !stamp.contains u && !bearer.contains u) &&
    stamp.getLast?.any (!w.contains ·) && stamp.head?.any (!w.contains ·) &&
    w.tails.all (fun rest => rest.isEmpty || !rest.isPrefixOf bearer) &&
    w.getLast?.all (!isSeparating ·)

section
variable {f : Char → List Char} {w z : List Char}

/-- A word that is apart from seals is foreign to each of them, if separators are spelled as they
are. -/
theorem foreign_of_isApart (hw : isApart f w = true)
    (hf : ∀ u, isSeparating u = true → f u = [u]) (hz : IsSeal z) : Foreign w (z.flatMap f) := by
  simp only [isApart, Bool.and_eq_true, List.any_eq_true, Option.any_eq_true, Option.all_eq_true,
    List.all_eq_true, List.mem_tails, Bool.or_eq_true, List.isEmpty_iff, Bool.not_eq_true',
    List.contains_eq_mem, decide_eq_false_iff_not] at hw
  obtain ⟨⟨⟨⟨⟨u, hu, ⟨hseparating, hstamp⟩, hbearer⟩, v, hv, hlast⟩, h, hh, hhead⟩, htails⟩,
    hend⟩ := hw
  obtain ⟨y, hy⟩ := List.head?_eq_some_iff.mp hh
  have hmarker : marker.flatMap f ≠ [] := by simp [hy]
  -- a seal is the marker with something in front that no rest of the word begins
  have hforeign : ∀ lead : List Char, u ∉ lead →
      (∀ rest, rest <:+ w → rest <+: lead → rest = []) → Foreign w (lead ++ marker.flatMap f) := by
    intro lead hnot hnone
    refine ⟨⟨u, hu, ?_⟩, ⟨v, ?_, hlast⟩, lead, h, y, by rw [hy], hhead, hnone⟩
    · rw [List.mem_append, not_or]
      exact ⟨hnot, hstamp⟩
    · rwa [List.getLast?_append_of_ne_nil _ hmarker]
  rcases hz with rfl | ⟨separators, rfl, hall⟩
  · have hsplit : bearerMarker = "Bearer ".toList ++ marker := rfl
    rw [hsplit, List.flatMap_append]
    refine hforeign _ hbearer fun rest hrest hpre => ?_
    have hin : rest.isPrefixOf ("Bearer ".toList.flatMap f) = true :=
      List.isPrefixOf_iff_prefix.mpr hpre
    exact (htails rest hrest).resolve_right (by rw [hin]; exact Bool.noConfusion)
  · have hself : separators.flatMap f = separators := by
      rw [List.flatMap_congr fun u hu => hf u (hall u hu), List.flatMap_singleton']
    rw [List.flatMap_append, hself]
    refine hforeign _ (fun hmem => ?_) fun rest hrest hpre => ?_
    · simp [hall u hmem] at hseparating
    · by_contra hne
      obtain ⟨c, hc⟩ := Option.isSome_iff_exists.mp (List.getLast?_isSome.mpr hne)
      have hlastw : w.getLast? = some c := by
        obtain ⟨p, rfl⟩ := hrest
        simp [List.getLast?_append, hc]
      have hno := hend c hlastw
      simp [hall c (hpre.subset (List.mem_of_getLast? hc))] at hno

/-- A rule brings in no word that is apart from seals. -/
theorem infix_of_infix_apply (hw : isApart f w = true) (hf : ∀ u, isSeparating u = true → f u = [u])
    {rule : Rule} (h : rule ∈ rules) {s : List Char} (hin : w <:+: (rule.apply s).flatMap f) :
    w <:+: s.flatMap f := by
  refine Exchanged.infix_of_infix ((exchanged_apply h s).flatMap ?_) hin
  rintro _ _ ⟨k, r, z, rfl, rfl, hz⟩
  exact ⟨k.flatMap f, r.flatMap f, z.flatMap f, by simp, by simp, foreign_of_isApart hw hf hz⟩

/-- Redaction brings in no word that is apart from seals. -/
theorem infix_of_infix_redactChars (hw : isApart f w = true)
    (hf : ∀ u, isSeparating u = true → f u = [u]) {s : List Char}
    (hin : w <:+: (redactChars s).flatMap f) : w <:+: s.flatMap f := by
  have hall : ∀ (rs : List Rule) (_ : rs ⊆ rules) (s : List Char),
      w <:+: (rs.foldl (fun t rule => rule.apply t) s).flatMap f → w <:+: s.flatMap f := by
    intro rs
    induction rs with
    | nil => exact fun _ _ hin => hin
    | cons rule rs ih =>
      intro hsub s hin
      have hlater := ih (List.subset_of_cons_subset hsub) (rule.apply s) hin
      exact infix_of_infix_apply hw hf (hsub (.head _)) hlater
  exact hall rules (List.Subset.refl _) s hin

end

end AskMetrics.Redaction
