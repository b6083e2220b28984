import AskMetrics.Proofs.Text.Twin

/-!
# What a scan misses

A scan goes on behind each match it finds, so a match that starts inside another one is not found.
That is all a scan misses: a place where a shape fits is the start of a match that is found, or it
lies inside one.
-/
namespace AskMetrics.Text

/-- The place `d` lies inside a match, at neither of its edges. -/
def Match.Covers (m : Match) (d : Cursor) : Prop :=
  ∃ x y, x ≠ [] ∧ y ≠ [] ∧ m.start.Reads x d ∧ d.Reads y m.stop

/-- Two texts read from one place: the longer one goes on where the shorter one ends. -/
theorem Cursor.Reads.split {c d e : Cursor} {x y : List Char} (hx : c.Reads x d)
    (hy : c.Reads y e) :
    (∃ z, x = y ++ z ∧ e.Reads z d) ∨ ∃ z, y = x ++ z ∧ d.Reads z e := by
  rcases List.append_eq_append_iff.mp (hx.ahead.symm.trans hy.ahead) with
    ⟨z, hz, hahead⟩ | ⟨z, hz, hahead⟩
  · right
    refine ⟨z, hz, hahead, ?_⟩
    rw [hy.behind, hx.behind, hz, List.reverse_append, List.append_assoc]
  · left
    refine ⟨z, hz, hahead, ?_⟩
    rw [hx.behind, hy.behind, hz, List.reverse_append, List.append_assoc]

section
variable {parts : List Pattern}

/-- A scan finds the match at a place, or one that covers the place. -/
theorem Finds.mem_or_covers
    (hless : ∀ c m, matchAt parts c = some m → m.stop.ahead.length < c.ahead.length)
    {c d : Cursor} {ms : List Match} {m : Match} {x : List Char} (h : Finds parts c ms)
    (hread : c.Reads x d) (hm : matchAt parts d = some m) :
    m ∈ ms ∨ ∃ m' ∈ ms, m'.Covers d := by
  induction h generalizing x with
  | done b =>
    have hlength : d.ahead.length = 0 := by
      have := hread.length
      simp only [List.length_nil] at this
      omega
    have := hless d m hm
    omega
  | @skip b a u ms hno _ ih =>
    cases x with
    | nil =>
      obtain rfl := Cursor.reads_nil_iff.mp hread
      rw [hno] at hm
      exact absurd hm (by simp)
    | cons v x =>
      obtain ⟨e, hv, hrest⟩ := Cursor.reads_cons_iff.mp hread
      obtain ⟨rfl, -⟩ : u = v ∧ a = e.ahead := by simpa using hv.ahead
      obtain rfl : e = ⟨u :: b, a⟩ := hv.unique (Cursor.reads_mk b [u] a)
      exact ih hrest
  | @hit c m' ms hmatch _ _ ih =>
    obtain ⟨hstart, hread'⟩ := reads_of_matchAt hmatch
    have hpast : ∀ z, m'.stop.Reads z d → m ∈ m' :: ms ∨ ∃ m₁ ∈ m' :: ms, m₁.Covers d := by
      intro z hz
      rcases ih hz with hmem | ⟨m₁, hm₁, hcovers⟩
      · exact .inl (.tail _ hmem)
      · exact .inr ⟨m₁, .tail _ hm₁, hcovers⟩
    rcases hread.split hread' with ⟨z, -, hrest⟩ | ⟨z, -, hrest⟩
    · exact hpast z hrest
    · -- the place is not behind the match: it is at an edge or inside
      by_cases hx : x = []
      · subst hx
        obtain rfl := Cursor.reads_nil_iff.mp hread
        obtain rfl : m' = m := Option.some.inj (hmatch.symm.trans hm)
        exact .inl (.head _)
      · by_cases hz : z = []
        · subst hz
          rw [Cursor.reads_nil_iff] at hrest
          exact hpast [] (Cursor.reads_nil_iff.mpr hrest.symm)
        · exact .inr ⟨m', .head _, x, z, hx, hz, hstart ▸ hread, hrest⟩

/-- Among the matches found in a text is the match at a place, or one that covers the place. -/
theorem mem_findAll_or_covers
    (hless : ∀ c m, matchAt parts c = some m → m.stop.ahead.length < c.ahead.length)
    {s b a : List Char} {m : Match} (hs : s = b.reverse ++ a)
    (hm : matchAt parts ⟨b, a⟩ = some m) :
    m ∈ findAll parts s ∨ ∃ m' ∈ findAll parts s, m'.Covers ⟨b, a⟩ := by
  obtain ⟨ms, hms⟩ := exists_finds hless (.start s)
  have hread : (Cursor.start s).Reads b.reverse ⟨b, a⟩ :=
    ⟨hs, by simp [Cursor.start]⟩
  rw [hms.findAll_eq]
  exact hms.mem_or_covers hless hread hm

end

end AskMetrics.Text
