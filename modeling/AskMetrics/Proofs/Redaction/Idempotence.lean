import AskMetrics.Proofs.Redaction.Bare

/-!
# Redacting twice

A redacted text that is redacted again stays as it is. The last three rules find nothing in it. The
first two can find what introduces a value, but there is the marker behind it, and it is replaced by
itself. The one exception is a name that begins with a long s. It is read as an s, but a key ends
before it, so that the name begins a word once the key is replaced.
-/
namespace AskMetrics.Redaction

open AskMetrics.Text

section
variable {rule : Rule} {s x y : List Char}

/-! ## No bare values -/

/-- What no rule brings back stays away. -/
theorem absent_foldl {At L : List Char → Prop} {Starts : Char → Prop} {rs : List Rule}
    (hguarded : ∀ rule ∈ rs, Guarded rule.parts rule.replacement At L Starts) (hs : Absent At L s) :
    Absent At L (rs.foldl (fun t rule => rule.apply t) s) := by
  induction rs generalizing s with
  | nil => exact hs
  | cons rule rs ih =>
    exact ih (fun r hr => hguarded r (.tail _ hr)) ((hguarded rule (.head _)).keeps_absent hs)

/-- What is said of a redacted text: no value is bare, and no secret is left. -/
structure Redacted (y : List Char) : Prop where
  named : Absent Opens (Bare NamedLead isValueChar) y
  parameter : Absent (fun _ => True) (Bare AddressLead isParameterChar) y
  free : Free y

theorem redacted_redactChars (s : List Char) : Redacted (redactChars s) := by
  have hnamed : Absent Opens (Bare NamedLead isValueChar) (namedValue.apply s) := by
    refine (guarded_namedLead (.head _)).absent_replaceAll (fun b a hb hbare => ?_) s
    obtain ⟨l, p, v, rfl, hlead, hvalue, -⟩ := hbare
    exact matchAt_namedValue_ne_none hb hlead hvalue
  have hparameter : ∀ t, Absent (fun _ => True) (Bare AddressLead isParameterChar)
      (addressParameter.apply t) := by
    refine (guarded_addressLead (.head _)).absent_replaceAll fun b a _ hbare => ?_
    obtain ⟨l, p, v, rfl, hlead, hvalue, -⟩ := hbare
    exact matchAt_addressParameter_ne_none hlead hvalue
  have hlater : laterRules = addressParameter :: secretRules := rfl
  refine ⟨?_, ?_, free_redactChars s⟩
  · rw [redactChars, rules_eq, List.foldl_cons]
    generalize namedValue.apply s = t at hnamed
    exact absent_foldl (fun _ h => guarded_namedLead (List.mem_cons_of_mem _ h)) hnamed
  · rw [redactChars, rules_eq, List.foldl_cons, hlater, List.foldl_cons]
    replace hparameter := hparameter (namedValue.apply s)
    generalize addressParameter.apply (namedValue.apply s) = t at hparameter
    exact absent_foldl (fun _ h => guarded_addressLead (List.mem_cons_of_mem _ h)) hparameter

/-! ## Settled texts -/

/-- A name without a long s begins with a letter. -/
theorem IsNamed.exists_letter (h : IsNamed credentialNames x) (hx : '\u017f' ∉ x) :
    ∃ u ∈ x.head?, u.isAlpha = true := by
  obtain ⟨u, x, rfl, name, hname, letter, hletter, hsame⟩ := h.exists_cons (by decide)
  refine ⟨u, rfl, ?_⟩
  have hfirst : (credentialNames.all fun name => name.toList.head?.all fun letter =>
      97 ≤ letter.toNat && letter.toNat ≤ 122 && letter != 'k') = true := by decide
  have hcode := List.all_eq_true.mp hfirst name hname
  simp only [Option.mem_def.mp hletter, Option.all_some, Bool.and_eq_true, decide_eq_true_eq,
    bne_iff_ne] at hcode
  simp only [sameLetter, Bool.or_eq_true, Bool.and_eq_true, beq_iff_eq] at hsame
  rcases hsame with (hlower | ⟨-, rfl⟩) | ⟨rfl, -⟩
  · rw [← Char.toNat_inj, toNat_toLower] at hlower
    rw [isAlpha_iff]
    split_ifs at hlower <;> omega
  · exact absurd (.head _) hx
  · exact absurd rfl hcode.2

/-- The only value of a named credential that is not bare is the marker. -/
theorem IsNamedValue.eq_marker {v a : List Char} (h : IsNamedValue v)
    (ha : ∀ u ∈ a.head?, isValueChar u = false) (hmarked : Marked isValueChar (v ++ a)) :
    v = marker := by
  obtain ⟨t, heq, ht⟩ := hmarked
  obtain ⟨w, r, rfl, rfl | hintro, -, hr⟩ := h
  · exact (eq_of_append_eq_append hr (List.all_eq_true.mp (by decide)) ha ht heq).1
  · obtain ⟨u, w, rfl, hu, -⟩ := hintro.exists_cons
    obtain ⟨rfl, -⟩ := List.cons.inj heq
    exact absurd hu (by decide)

/-- The rule for named credentials leaves a text without bare values as it is. -/
theorem settled_namedValue (h : Absent Opens (Bare NamedLead isValueChar) y)
    (hlong : '\u017f' ∉ y) : Settled namedValue.parts namedValue.replacement [] y [] := by
  rw [Settled, along_iff_forall]
  intro w u z hy m hm
  obtain ⟨name, p, x, v, hparts⟩ := exists_namedMatch hm
  have hahead : u :: (z ++ []) = name ++ (p ++ x) ++ (v ++ m.stop.ahead) := by
    simpa using hparts.ahead
  obtain ⟨k, hk, halpha⟩ := hparts.named.exists_letter fun hmem => hlong <| by
    have hin : '\u017f' ∈ u :: (z ++ []) := by
      rw [hahead]
      simp [hmem]
    rw [hy]
    exact List.mem_append_right w (by simpa using hin)
  have hopens : Opens (w.reverse ++ []) := by
    obtain ⟨n, rfl⟩ := List.head?_eq_some_iff.mp hk
    obtain ⟨rfl, -⟩ := List.cons.inj hahead
    exact opens_of_atEdge hparts.edge rfl (isNameChar_of_isAlpha halpha)
  have hmarked : p = [] ∧ Marked isValueChar (v ++ m.stop.ahead) := by
    by_contra hbare
    obtain ⟨c, hc, hchar⟩ := hparts.value.exists_head
    obtain ⟨r, rfl⟩ := List.head?_eq_some_iff.mp hc
    exact along_iff_forall.mp h w u z hy ⟨hopens, name ++ (p ++ x), p, _, hahead,
      ⟨name, x, rfl, hparts.named, ⟨k, hk, halpha⟩, hparts.plural, hparts.assignment⟩,
      ⟨c, rfl, hchar⟩, hbare⟩
  obtain ⟨rfl, hmarked⟩ := hmarked
  rw [hparts.replacement, hparts.text, hparts.value.eq_marker hparts.stop hmarked, List.nil_append]

/-- So does the rule for parameters. -/
theorem settled_addressParameter (h : Absent (fun _ => True) (Bare AddressLead isParameterChar) y) :
    Settled addressParameter.parts addressParameter.replacement [] y [] := by
  rw [Settled, along_iff_forall]
  intro w u z hy m hm
  obtain ⟨l, v, hparts⟩ := exists_addressMatch hm
  obtain ⟨t, heq, ht⟩ : Marked isParameterChar (v ++ m.stop.ahead) := by
    by_contra hbare
    obtain ⟨c, r, rfl⟩ := List.exists_cons_of_ne_nil hparts.ne_nil
    exact along_iff_forall.mp h w u z hy ⟨trivial, l, [], _, hparts.ahead, hparts.lead,
      ⟨c, rfl, hparts.value c (.head _)⟩, fun hmarked => hbare hmarked.2⟩
  obtain ⟨rfl, -⟩ := eq_of_append_eq_append hparts.value (List.all_eq_true.mp (by decide))
    hparts.stop ht heq
  rw [hparts.replacement, hparts.text]

/-- And so do the last three rules, where they find nothing. -/
theorem settled_of_free (h : Free y) (hrule : rule ∈ secretRules) :
    Settled rule.parts rule.replacement [] y [] := by
  refine settled_of_matchAt_eq_none (along_iff_forall.mpr fun w u z hy => ?_)
  exact findFrom_eq_none_iff.mp (h rule hrule) w _ (by simpa using hy)

/-! ## Redacting twice -/

namespace Redacted

/-- Each rule leaves a redacted text without a long s as it is. -/
theorem settled (h : Redacted y) (hlong : '\u017f' ∉ y) (hrule : rule ∈ rules) :
    Settled rule.parts rule.replacement [] y [] := by
  rcases List.mem_cons.mp hrule with rfl | hrule
  · exact settled_namedValue h.named hlong
  · rcases List.mem_cons.mp hrule with rfl | hrule
    · exact settled_addressParameter h.parameter
    · exact settled_of_free h.free hrule

/-- It is left as it is behind another text, too, in which no match starts and behind which a word
can begin. -/
theorem redactChars_append_eq (h : Redacted y) (hlong : '\u017f' ∉ y)
    (hx : ∀ rule ∈ rules, ∀ a, Along (fun b a => matchAt rule.parts ⟨b, a⟩ = none) [] x a)
    (hopens : Opens x.reverse) : redactChars (x ++ y) = x ++ y := by
  have hfloating : ∀ rule ∈ rules, ∀ p ∈ rule.parts, p.isFloating = true := by decide
  have hsame : ([] : List Char).head?.any isWord = (x.reverse ++ []).head?.any isWord := by
    rw [List.append_nil]
    cases hback : x.reverse with
    | nil => rfl
    | cons u b =>
      rw [hback, opens_cons] at hopens
      simp [hopens]
  have happly : ∀ rule ∈ rules, rule.apply (x ++ y) = x ++ y := by
    intro rule hrule
    have hsettled : Settled rule.parts rule.replacement [] (x ++ y) [] :=
      along_append.mpr ⟨settled_of_matchAt_eq_none (hx rule hrule _),
        (h.settled hlong hrule).alike (hfloating rule hrule)
          (fun _ _ => replacement_congr hrule) hsame⟩
    exact hsettled.replaceAll_eq (length_stop_lt hrule)
  have hall : ∀ rs ⊆ rules, rs.foldl (fun t rule => Rule.apply rule t) (x ++ y) = x ++ y := by
    intro rs hrs
    induction rs with
    | nil => rfl
    | cons rule rs ih =>
      rw [List.foldl_cons, happly rule (hrs (.head _)), ih (List.subset_of_cons_subset hrs)]
  exact hall rules (List.Subset.refl _)

end Redacted

/-- **Redacting twice is redacting once**, unless a long s is left in the text. -/
theorem redactChars_redactChars (hlong : '\u017f' ∉ redactChars s) :
    redactChars (redactChars s) = redactChars s := by
  have h := redacted_redactChars s
  generalize redactChars s = y at h hlong ⊢
  exact h.redactChars_append_eq hlong (x := []) (fun _ _ _ => along_nil) opens_nil

example : redact "AIzaSyA0123456789abcdefghij\u017fecret=x" = "[REDACTED]\u017fecret=x" ∧
    redact "[REDACTED]\u017fecret=x" = "[REDACTED]\u017fecret=[REDACTED]" := by decide +kernel

/-! ## What is brought in -/

theorem replacement_subset {c : Cursor} {m : Match} (h : rule ∈ rules)
    (hm : matchAt rule.parts c = some m) : rule.replacement m ⊆ m.text ++ bearerMarker := by
  have hmarker : marker ⊆ bearerMarker := List.subset_append_right _ _
  simp only [rules, List.mem_cons, List.not_mem_nil, or_false] at h
  rcases h with rfl | rfl | rfl | rfl | rfl
  · obtain ⟨name, p, x, v, hparts⟩ := exists_namedMatch hm
    rw [hparts.replacement, hparts.text]
    intro u hu
    have hin := @hmarker u
    simp only [List.mem_append] at hu ⊢
    tauto
  · obtain ⟨l, v, hparts⟩ := exists_addressMatch hm
    rw [hparts.replacement, hparts.text]
    intro u hu
    have hin := @hmarker u
    simp only [List.mem_append] at hu ⊢
    tauto
  · exact List.subset_append_right _ _
  · exact fun u hu => List.mem_append_right _ (hmarker hu)
  · exact fun u hu => List.mem_append_right _ (hmarker hu)

/-- Redaction brings in no characters but those of the marker and the word that introduces a bearer
token. -/
theorem redactChars_subset (s : List Char) : redactChars s ⊆ s ++ bearerMarker := by
  have hall : ∀ rs ⊆ rules, ∀ t, t ⊆ s ++ bearerMarker →
      rs.foldl (fun t rule => Rule.apply rule t) t ⊆ s ++ bearerMarker := by
    intro rs hrs
    induction rs with
    | nil => exact fun t ht => ht
    | cons rule rs ih =>
      intro t ht
      have happly : rule.apply t ⊆ t ++ bearerMarker :=
        (exchanged_replaceAll fun c m hm => replacement_subset (hrs (.head _)) hm).subset
      refine ih (List.subset_of_cons_subset hrs) _ (List.Subset.trans happly ?_)
      exact List.append_subset.mpr ⟨ht, List.subset_append_right _ _⟩
  exact hall rules (List.Subset.refl _) s (List.subset_append_left _ _)

end

end AskMetrics.Redaction
