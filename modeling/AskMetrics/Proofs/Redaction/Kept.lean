import AskMetrics.Proofs.Redaction.Numeral

/-!
# Words that redaction keeps

A word that stands behind other text can fall prey to redaction in two ways: a match that starts in
the text before goes on into it, or a match starts in it and replaces it.

No match goes on behind a closing bracket or a comma with a blank after it. A blank with an opening
bracket after it is nearly as good: only the value of a named credential can begin with a bracket,
and only if the text before ends just where the value is to come.

A match that starts in a calm word, one without an equals sign or colon and without the words that
introduce a token, keeps the rest of the word as a part of the name that it keeps.
-/
namespace AskMetrics.Redaction

open AskMetrics.Text

/-! ## Blanks and brackets in matches -/

/-- Brackets and commas, behind which no blank is a part of a match. -/
def isShut (u : Char) : Bool := "()[],".toList.contains u

theorem isShut_iff {u : Char} :
    isShut u = true ↔ u = '(' ∨ u = ')' ∨ u = '[' ∨ u = ']' ∨ u = ',' := by
  simp [isShut]

theorem caseless_isShut : Caseless isShut where
  not_capital v hv hcode := by
    rcases isShut_iff.mp hv with rfl | rfl | rfl | rfl | rfl <;> exact absurd hcode (by decide)
  longS := by decide
  kelvin := by decide

/-- A class that brackets and commas are not of. -/
theorem not_isShut_of {g : Char → Bool} (hg : "()[],".toList.all (!g ·) = true) {u : Char}
    (h : g u = true) : isShut u = false := by
  by_contra hshut
  have hmem : isShut u = true := by simpa using hshut
  have hnot := List.all_eq_true.mp hg u (List.contains_iff_mem.mp hmem)
  simp [h] at hnot

/-- The text of a match in two parts: one without brackets and commas, and one without blanks. -/
structure Parted (lead value : List Char) : Prop where
  not_shut : ∀ u ∈ lead, isShut u = false
  not_blank : ∀ u ∈ value, isBlank u = false

/-- A blank in a match is in the first part. -/
theorem Parted.exists_of_append_eq {lead value w k : List Char} (h : Parted lead value)
    (heq : lead ++ value = w ++ ' ' :: k) : ∃ k', lead = w ++ ' ' :: k' ∧ k = k' ++ value := by
  have hnot : ' ' ∉ value := fun hmem => absurd (h.not_blank ' ' hmem) (by decide)
  rcases List.append_eq_append_iff.mp heq with ⟨y, -, hvalue⟩ | ⟨y, hlead, hrest⟩
  · exact absurd (by simp [hvalue]) hnot
  · cases y with
    | nil =>
      have hvalue : value = ' ' :: k := hrest.symm
      exact absurd (by simp [hvalue]) hnot
    | cons v y =>
      obtain ⟨rfl, hk⟩ := List.cons.inj hrest
      exact ⟨y, hlead, hk⟩

/-- The shape of a named credential up to its value. -/
def namedLead : Pattern :=
  .sequence [.andThen .edge credentialName, .optional (.anyCase "s"), assignment,
    .optional (.andThen (.anyCase "bearer") .someBlanks)]

/-- A character of the value. -/
def isValueChar (u : Char) : Bool := !isBlank u && !"\"'&,;".toList.contains u

section
variable {rule : Rule} {c d : Cursor}

theorem mem_ends_namedValue : d ∈ (Pattern.sequence namedValue.parts).ends c ↔
    ∃ e ∈ namedLead.ends c, ∃ x, x ≠ [] ∧ (∀ u ∈ x, isValueChar u = true) ∧ e.Reads x d := by
  constructor
  · intro hd
    obtain ⟨d₁, h₁, hd⟩ := Pattern.mem_ends_andThen.mp hd
    obtain ⟨d₂, h₂, hd⟩ := Pattern.mem_ends_andThen.mp hd
    obtain ⟨d₃, h₃, hd⟩ := Pattern.mem_ends_andThen.mp hd
    obtain ⟨d₄, h₄, hvalue⟩ := Pattern.mem_ends_andThen.mp hd
    refine ⟨d₄, ?_, Pattern.mem_ends_run.mp hvalue⟩
    exact Pattern.mem_ends_andThen.mpr ⟨d₁, h₁, Pattern.mem_ends_andThen.mpr
      ⟨d₂, h₂, Pattern.mem_ends_andThen.mpr ⟨d₃, h₃, h₄⟩⟩⟩
  · rintro ⟨d₄, hlead, hvalue⟩
    obtain ⟨d₁, h₁, hlead⟩ := Pattern.mem_ends_andThen.mp hlead
    obtain ⟨d₂, h₂, hlead⟩ := Pattern.mem_ends_andThen.mp hlead
    obtain ⟨d₃, h₃, h₄⟩ := Pattern.mem_ends_andThen.mp hlead
    exact Pattern.mem_ends_andThen.mpr ⟨d₁, h₁, Pattern.mem_ends_andThen.mpr
      ⟨d₂, h₂, Pattern.mem_ends_andThen.mpr ⟨d₃, h₃, Pattern.mem_ends_andThen.mpr
        ⟨d₄, h₄, Pattern.mem_ends_run.mpr hvalue⟩⟩⟩⟩

theorem readsOnly_namedLead : ReadsOnly (!isShut ·) namedLead := by
  have hblank : ∀ u, isBlank u = true → (!isShut u) = true := fun u hu => by
    simp [not_isShut_of (g := isBlank) (by decide) hu]
  have hassignment : ReadsOnly (!isShut ·) assignment := by
    intro c d hd
    obtain ⟨x, hread, hx⟩ := readsOnly_assignment c d hd
    exact ⟨x, hread, fun u hu => by simp [not_isShut_of (g := isSeparating) (by decide) (hx u hu)]⟩
  refine .andThen (.andThen .edge (caseless_isShut.readsOnly_credentialName (by decide)))
    (.andThen (.optional (caseless_isShut.readsOnly_anyCase (by decide))) (.andThen hassignment
      (.optional (.andThen (caseless_isShut.readsOnly_anyCase (by decide))
        (.andThen (.one hblank) (.many_one hblank))))))

/-- The rules but the one for named credentials. -/
def laterRules : List Rule := [addressParameter, bearerToken, prefixedKey, webToken]

theorem rules_eq : rules = namedValue :: laterRules := rfl

/-- The blanks in a match of these rules are before a value that does not begin with a bracket. -/
theorem exists_parted_of_mem_laterRules (h : rule ∈ laterRules)
    (hd : d ∈ (Pattern.sequence rule.parts).ends c) : ∃ lead value, c.Reads (lead ++ value) d ∧
      Parted lead value ∧ (lead ≠ [] → ∃ u ∈ value.head?, isShut u = false) := by
  have hsolid : ∀ {x}, c.Reads x d → (∀ u ∈ x, isBlank u = false) →
      ∃ lead value, c.Reads (lead ++ value) d ∧
        Parted lead value ∧ (lead ≠ [] → ∃ u ∈ value.head?, isShut u = false) :=
    fun {x} hread hx => ⟨[], x, hread, ⟨by simp, hx⟩, by simp⟩
  simp only [laterRules, List.mem_cons, List.not_mem_nil, or_false] at h
  rcases h with rfl | rfl | rfl | rfl
  · obtain ⟨x, hread, hx⟩ := readsOnly_solid_addressParameter c d hd
    exact hsolid hread fun u hu => by simpa [isSolid] using hx u hu
  · obtain ⟨-, w, x, y, hw, hne, hx, hy, hread⟩ := mem_ends_bearerPattern.mp hd
    refine ⟨w, x ++ y, hread, ⟨?_, ?_⟩, fun _ => ?_⟩
    · obtain ⟨word, blanks, rfl, hword, -, hblanks⟩ := hw
      intro u hu
      rcases List.mem_append.mp hu with hu | hu
      · obtain ⟨letter, hletter, hsame⟩ := Pattern.exists_letter_of_mem hword u hu
        have hletters : "bearer".toList.all (!isShut ·) = true := by decide
        exact caseless_isShut.eq_false (by simpa using List.all_eq_true.mp hletters letter hletter)
          hsame
      · exact not_isShut_of (g := isBlank) (by decide) (hblanks u hu)
    · intro u hu
      rcases List.mem_append.mp hu with hu | hu
      · exact not_isBlank_of_isTokenChar (hx u hu)
      · rw [hy u hu]
        decide
    · obtain ⟨u, x, rfl⟩ := List.exists_cons_of_ne_nil hne
      exact ⟨u, rfl, not_isShut_of (g := isTokenChar) (by decide) (hx u (.head _))⟩
  · obtain ⟨-, x, hx, hread⟩ := mem_ends_keyPattern.mp hd
    exact hsolid hread hx.not_isBlank
  · obtain ⟨-, x, hx, hread⟩ := mem_ends_webPattern.mp hd
    exact hsolid hread hx.not_isBlank

/-- The blanks in a match are before its value. -/
theorem exists_parted_of_mem_ends (h : rule ∈ rules)
    (hd : d ∈ (Pattern.sequence rule.parts).ends c) :
    ∃ lead value, c.Reads (lead ++ value) d ∧ Parted lead value := by
  rcases List.mem_cons.mp h with rfl | h
  · obtain ⟨e, he, x, -, hx, hread⟩ := mem_ends_namedValue.mp hd
    obtain ⟨lead, hlead, hshut⟩ := readsOnly_namedLead c e he
    refine ⟨lead, x, hlead.trans hread, fun u hu => by simpa using hshut u hu, fun u hu => ?_⟩
    simpa using (Bool.and_eq_true_iff.mp (hx u hu)).1
  · obtain ⟨lead, value, hread, hparted, -⟩ := exists_parted_of_mem_laterRules h hd
    exact ⟨lead, value, hread, hparted⟩

end

/-! ## What no match goes on behind -/

/-- Whether a text ends where the value of a named credential is to come, so that a bracket behind a
blank would be read as the value. -/
def leavesOpen (s : List Char) (bracket : Char) : Bool :=
  occurs (.andThen (.sequence namedValue.parts) .atEnd) (s ++ [' ', bracket])

section
variable {rule : Rule} {b x a : List Char} {u : Char}

/-- No match goes on behind a closing bracket or a comma with a blank after it. -/
theorem confined_of_shut (h : rule ∈ rules) (hx : EndsIn (isShut · = true) x) (a : List Char) :
    Confined rule.parts b x (' ' :: a) := by
  refine confined_of_not_reads fun y w e k hw hne he hread => ?_
  obtain ⟨lead, value, hread', hparted⟩ := exists_parted_of_mem_ends h he
  have htext : lead ++ value = w ++ ' ' :: k := by rw [← hread'.upTo, hread.upTo]
  obtain ⟨k', hlead, -⟩ := hparted.exists_of_append_eq htext
  rw [hw, endsIn_append_iff hne] at hx
  obtain ⟨v, hv, hshut⟩ := hx
  have hnot := hparted.not_shut v (by simp [hlead, List.mem_of_mem_getLast? hv])
  simp [hshut] at hnot

/-- A match that goes on behind a blank with a bracket after it begins its value with the
bracket. -/
theorem Parted.exists_of_bracket {lead value w k r : List Char} (h : Parted lead value)
    (hu : isShut u = true) (htext : lead ++ value = w ++ ' ' :: k)
    (hk : u :: a = k ++ r) : lead = w ++ [' '] ∧ u :: a = value ++ r := by
  obtain ⟨k', hlead, rfl⟩ := h.exists_of_append_eq htext
  cases k' with
  | nil => exact ⟨hlead, by simpa using hk⟩
  | cons v k' =>
    obtain ⟨rfl, -⟩ := List.cons.inj hk
    have hnot := h.not_shut u (by simp [hlead])
    simp [hu] at hnot

/-- No match but that of a named credential goes on behind a blank with a bracket after it. -/
theorem confined_of_bracket (h : rule ∈ laterRules) (hu : isShut u = true) (a : List Char) :
    Confined rule.parts b x (' ' :: u :: a) := by
  refine confined_of_not_reads fun y w e k hw hne he hread => ?_
  obtain ⟨lead, value, hread', hparted, hhead⟩ := exists_parted_of_mem_laterRules h he
  have htext : lead ++ value = w ++ ' ' :: k := by rw [← hread'.upTo, hread.upTo]
  obtain ⟨hlead, hvalue⟩ := hparted.exists_of_bracket hu htext (eq_append_of_reads hread)
  obtain ⟨v, hv, hnot⟩ := hhead (by simp [hlead])
  obtain ⟨value, rfl⟩ := List.head?_eq_some_iff.mp hv
  obtain ⟨rfl, -⟩ := List.cons.inj hvalue
  simp [hu] at hnot

/-- Nor does that of a named credential, unless the text before leaves it open. -/
theorem confined_namedValue (hu : isShut u = true) (hx : leavesOpen x u = false) (a : List Char) :
    Confined namedValue.parts [] x (' ' :: u :: a) := by
  refine confined_of_not_reads fun y w e k hw hne he hread => ?_
  obtain ⟨d, hd, value, hvalue, hchars, hrest⟩ := mem_ends_namedValue.mp he
  obtain ⟨lead, hlead, hshut⟩ := readsOnly_namedLead _ _ hd
  have hparted : Parted lead value :=
    ⟨fun v hv => by simpa using hshut v hv,
      fun v hv => by simpa using (Bool.and_eq_true_iff.mp (hchars v hv)).1⟩
  have htext : lead ++ value = w ++ ' ' :: k := by rw [← (hlead.trans hrest).upTo, hread.upTo]
  obtain ⟨hlead', hvalue'⟩ := hparted.exists_of_bracket hu htext (eq_append_of_reads hread)
  have hd' : d.ahead = u :: a := by rw [hrest.ahead, hvalue']
  -- the same part before the value is read where the text ends with the bracket
  have hshares : Cursor.Shares a [] ⟨y.reverse ++ [], w ++ ' ' :: u :: a⟩
      ⟨y.reverse, w ++ [' ', u]⟩ := ⟨by simp, w ++ [' ', u], by simp, by simp, by simp⟩
  obtain ⟨d', hd'mem, hshared⟩ := Pattern.exists_shares_of_mem_ends (p := namedLead) (by decide)
    hshares hd (by simp [Cursor.isBefore, hd'])
  obtain ⟨z, -, hz, hz'⟩ := hshared.ahead
  obtain rfl : z = [u] := List.append_cancel_right (hz.symm.trans hd' : z ++ a = [u] ++ a)
  rw [leavesOpen, occurs_eq_false_iff] at hx
  refine hx y.reverse (w ++ [' ', u]) (by simp [hw]) ⟨u :: d'.behind, []⟩ ?_
  refine Pattern.mem_ends_andThen.mpr ⟨_, mem_ends_namedValue.mpr ⟨d', hd'mem, [u], by simp, ?_,
    ⟨by simpa using hz', rfl⟩⟩, Pattern.mem_ends_atEnd.mpr ⟨rfl, rfl⟩⟩
  cases value with
  | nil => exact absurd rfl hvalue
  | cons v value =>
    obtain ⟨rfl, -⟩ := List.cons.inj hvalue'
    simpa using hchars u (.head _)

end

/-! ## Matches in calm texts -/

/-- A text in which no match has its value: it has no equals sign or colon and none of the words that
introduce a token, and its last character is not in these words, nor a separator, nor a plural s. -/
def isCalm (s : List Char) : Bool :=
  s.all (fun u => u != '=' && u != ':') && !occurs (.anyCase "bearer") s &&
    !occurs (.literal "AIza") s && !occurs (.literal "eyJ") s &&
    s.getLast?.any fun u => !isSeparating u && !"sbearer".toList.any (sameLetter · u) &&
      !"AIzaeyJ".toList.contains u

/-- What `isCalm` says of a text. -/
structure Calm (s : List Char) : Prop where
  no_sign : '=' ∉ s ∧ ':' ∉ s
  no_bearer : ∀ x, List.Forall₂ (fun letter u => sameLetter letter u = true) "bearer".toList x →
    ¬ x <:+: s
  no_key : ¬ "AIza".toList <:+: s
  no_token : ¬ "eyJ".toList <:+: s
  last : ∃ u ∈ s.getLast?, isSeparating u = false ∧
    (∀ letter ∈ "sbearer".toList, sameLetter letter u = false) ∧ u ∉ "AIzaeyJ".toList

section
variable {s w r a b : List Char}

theorem not_infix_of_not_occurs_anyCase {word : String} (h : occurs (.anyCase word) s = false)
    {x : List Char}
    (hx : List.Forall₂ (fun letter u => sameLetter letter u = true) word.toList x) :
    ¬ x <:+: s := by
  rintro ⟨y, z, rfl⟩
  refine occurs_eq_false_iff.mp h y.reverse (x ++ z) (by simp) ⟨x.reverse ++ y.reverse, z⟩ ?_
  exact Pattern.mem_ends_anyCase.mpr ⟨x, hx, Cursor.reads_mk ..⟩

theorem not_infix_of_not_occurs_literal {word : String} (h : occurs (.literal word) s = false) :
    ¬ word.toList <:+: s := by
  rintro ⟨y, z, rfl⟩
  refine occurs_eq_false_iff.mp h y.reverse (word.toList ++ z) (by simp)
    ⟨word.toList.reverse ++ y.reverse, z⟩ ?_
  exact Pattern.mem_ends_literal.mpr (Cursor.reads_mk ..)

theorem calm_of_isCalm (h : isCalm s = true) : Calm s := by
  simp only [isCalm, Bool.and_eq_true, Bool.not_eq_true', Option.any_eq_true] at h
  obtain ⟨⟨⟨⟨hsign, hbearer⟩, hkey⟩, htoken⟩, u, hu, ⟨hseparating, hletters⟩, hword⟩ := h
  have hmem : ∀ v, ¬ (v != '=' && v != ':') = true → v ∉ s := fun v hv hin =>
    hv (List.all_eq_true.mp hsign v hin)
  refine ⟨⟨hmem '=' (by decide), hmem ':' (by decide)⟩,
    fun x hx => not_infix_of_not_occurs_anyCase hbearer hx, not_infix_of_not_occurs_literal hkey,
    not_infix_of_not_occurs_literal htoken, u, hu, hseparating, fun letter hletter => ?_,
    fun hin => ?_⟩
  · simpa using List.any_eq_false.mp hletters letter hletter
  · rw [List.contains_iff_mem.mpr hin] at hword
    cases hword

/-- A text that is read from a rest of a calm text is inside of it, or the calm text ends in it. -/
theorem append_ne_of_not_infix {word rest : List Char} (hr : r ≠ []) (hnot : ¬ word <:+: w ++ r)
    (hlast : ∀ u ∈ r.getLast?, u ∉ word) : r ++ a ≠ word ++ rest := by
  intro heq
  rcases List.append_eq_append_iff.mp heq with ⟨c, hword, -⟩ | ⟨c, hsplit, -⟩
  · obtain ⟨u, hu⟩ := Option.isSome_iff_exists.mp (List.getLast?_isSome.mpr hr)
    exact hlast u hu (by simp [hword, List.mem_of_getLast? hu])
  · exact hnot ⟨w, c, by simp [hsplit]⟩

/-- A rest of a calm text, which does not have the sign `e`, is a part of the name before the
sign. -/
theorem prefix_of_append_eq {name t rest : List Char} {e : Char}
    (h : r ++ a = name ++ (t ++ e :: rest)) (he : e ∉ r) (hlast : ∀ u ∈ r.getLast?, u ∉ t) :
    r <+: name := by
  rcases List.append_eq_append_iff.mp h with ⟨c, hname, -⟩ | ⟨c, hsplit, hrest⟩
  · exact ⟨c, hname.symm⟩
  · cases hc : c.getLast? with
    | none =>
      obtain rfl := List.getLast?_eq_none_iff.mp hc
      exact ⟨[], by simp [hsplit]⟩
    | some v =>
      have hv : r.getLast? = some v := by simp [hsplit, List.getLast?_append, hc]
      -- what is left of the rest is before the sign, too, and so is its last character
      have hpre : c <+: t := by
        rcases List.append_eq_append_iff.mp hrest with ⟨k, hk, hsign⟩ | ⟨k, hk, -⟩
        · cases k with
          | nil => exact ⟨[], by simp [hk]⟩
          | cons e' k =>
            obtain ⟨rfl, -⟩ := List.cons.inj hsign
            exact absurd (by simp [hsplit, hk]) he
        · exact ⟨k, hk.symm⟩
      exact absurd (hpre.subset (List.mem_of_getLast? hc)) (hlast v hv)

variable {rule : Rule} {m : Match}

/-- What the match of a named credential reads first, and what is kept of that: there is an equals
sign or a colon in the separators. -/
theorem exists_reads_named {c : Cursor} (hm : matchAt namedValue.parts c = some m) :
    ∃ name plural separators d, c.Reads (name ++ (plural ++ separators)) d ∧
      namedValue.replacement m = name ++ (separators ++ marker) ∧
      (∀ u ∈ plural, sameLetter 's' u = true) ∧ (∀ u ∈ separators, isSeparating u = true) ∧
      ∃ front e rest, separators = front ++ e :: rest ∧ (e = '=' ∨ e = ':') := by
  obtain ⟨⟨texts, stop⟩, hsplit, rfl⟩ := Option.map_eq_some_iff.mp hm
  obtain ⟨d₁, name, _, rfl, -, hname, hsplit⟩ := exists_of_splitFrom_cons hsplit
  obtain ⟨d₂, plural, _, rfl, hends, hplural, hsplit⟩ := exists_of_splitFrom_cons hsplit
  obtain ⟨d₃, separators, rest, rfl, hends', hread, -⟩ := exists_of_splitFrom_cons hsplit
  obtain ⟨p, hp, hletters⟩ : ∃ p, d₁.Reads p d₂ ∧ ∀ u ∈ p, sameLetter 's' u = true :=
    ReadsOnly.optional (.anyCase fun letter hletter u hu => by
      obtain rfl : letter = 's' := by simpa using hletter
      exact hu) _ _ hends
  obtain rfl : plural = p := by rw [← hplural.upTo, hp.upTo]
  obtain ⟨k, y, e, y', k', hassign, he, -⟩ := exists_reads_assignment hends'
  obtain ⟨x, hx, hseparating⟩ := readsOnly_assignment _ _ hends'
  have hparts : separators = k ++ y ++ e :: (y' ++ k') := by
    rw [← hread.upTo, hassign.upTo, List.append_assoc]
  obtain rfl : separators = x := by rw [← hread.upTo, hx.upTo]
  exact ⟨name, plural, separators, d₃, hname.trans (hplural.trans hread),
    by simp [namedValue, Match.part], hletters, hseparating, k ++ y, e, _, hparts, he⟩

theorem prefix_replacement_namedValue (hs : Calm (w ++ r)) (hr : r ≠ [])
    (hm : matchAt namedValue.parts ⟨b, r ++ a⟩ = some m) : r <+: namedValue.replacement m := by
  obtain ⟨name, plural, separators, d, hread, hreplacement, hletters, hseparating, front, e, rest,
    hparts, he⟩ := exists_reads_named hm
  obtain ⟨v, hv, hsep, hsame, -⟩ := hs.last
  rw [List.getLast?_append_of_ne_nil _ hr] at hv
  have hsign : e ∉ r := by
    rcases he with rfl | rfl
    · exact fun hmem => hs.no_sign.1 (List.mem_append_right _ hmem)
    · exact fun hmem => hs.no_sign.2 (List.mem_append_right _ hmem)
  have hlast : ∀ u ∈ r.getLast?, u ∉ plural ++ front := by
    intro u hu hmem
    obtain rfl : u = v := Option.some.inj (hu.symm.trans hv)
    rcases List.mem_append.mp hmem with hmem | hmem
    · simp [hletters u hmem] at hsame
    · simp [hseparating u (hparts ▸ List.mem_append_left _ hmem)] at hsep
  have hahead : r ++ a = name ++ ((plural ++ front) ++ e :: (rest ++ d.ahead)) := by
    have htext : r ++ a = name ++ (plural ++ separators) ++ d.ahead := hread.ahead
    rw [htext, hparts]
    simp
  rw [hreplacement]
  exact (prefix_of_append_eq hahead hsign hlast).trans (List.prefix_append ..)

theorem prefix_replacement_addressParameter (hs : Calm (w ++ r))
    (hm : matchAt addressParameter.parts ⟨b, r ++ a⟩ = some m) :
    r <+: addressParameter.replacement m := by
  obtain ⟨⟨texts, stop⟩, hsplit, rfl⟩ := Option.map_eq_some_iff.mp hm
  obtain ⟨d₁, name, rest, rfl, hends, hname, -⟩ := exists_of_splitFrom_cons hsplit
  obtain ⟨e₁, hone, hends⟩ := Pattern.mem_ends_andThen.mp hends
  obtain ⟨e₂, hword, hequals⟩ := Pattern.mem_ends_andThen.mp hends
  obtain ⟨y, hy⟩ := Pattern.exists_reads hone
  obtain ⟨z, hz⟩ := Pattern.exists_reads hword
  have hread := (hy.trans hz).trans (Pattern.mem_ends_char.mp hequals)
  obtain rfl : name = y ++ z ++ ['='] := by rw [← hname.upTo, hread.upTo]
  have hahead : r ++ a = (y ++ z) ++ ([] ++ '=' :: d₁.ahead) := by
    have htext := hread.ahead
    simpa using htext
  have hpre : r <+: y ++ z := prefix_of_append_eq hahead
    (fun hmem => hs.no_sign.1 (List.mem_append_right _ hmem)) (by simp)
  refine hpre.trans ⟨'=' :: marker, ?_⟩
  simp [addressParameter, Match.part]

/-- No match of the other rules starts in a calm text. -/
theorem matchAt_eq_none_of_calm (hs : Calm (w ++ r)) (hr : r ≠ [])
    (h : rule ∈ [bearerToken, prefixedKey, webToken]) :
    matchAt rule.parts ⟨b, r ++ a⟩ = none := by
  obtain ⟨v, hv, -, hletters, hword⟩ := hs.last
  rw [List.getLast?_append_of_ne_nil _ hr] at hv
  have hlast : ∀ {word : List Char}, v ∉ word → ∀ u ∈ r.getLast?, u ∉ word := by
    intro word hnot u hu
    obtain rfl : u = v := Option.some.inj (hu.symm.trans hv)
    exact hnot
  rw [Option.eq_none_iff_forall_ne_some]
  intro m hm
  obtain ⟨⟨texts, d⟩, hsplit, -⟩ := Option.map_eq_some_iff.mp hm
  have hends := mem_ends_sequence_of_splitFrom hsplit
  simp only [List.mem_cons, List.not_mem_nil, or_false] at h
  rcases h with rfl | rfl | rfl
  · obtain ⟨-, _, x, y, ⟨word, blanks, rfl, hbearer, -⟩, -, -, -, hread⟩ :=
      mem_ends_bearerPattern.mp hends
    have hahead : r ++ a = word ++ (blanks ++ (x ++ y) ++ d.ahead) := by
      have htext := hread.ahead
      simpa using htext
    refine append_ne_of_not_infix hr (hs.no_bearer word hbearer) (hlast fun hmem => ?_) hahead
    obtain ⟨letter, hletter, hsame⟩ := Pattern.exists_letter_of_mem hbearer v hmem
    rw [hletters letter (List.mem_cons_of_mem 's' hletter)] at hsame
    cases hsame
  · obtain ⟨-, x, ⟨key, rfl, -⟩, hread⟩ := mem_ends_keyPattern.mp hends
    have hahead : r ++ a = "AIza".toList ++ (key ++ d.ahead) := by
      have htext := hread.ahead
      simpa using htext
    have hsub : "AIza".toList ⊆ "AIzaeyJ".toList := List.subset_append_left _ "eyJ".toList
    exact append_ne_of_not_infix hr hs.no_key (hlast fun hmem => hword (hsub hmem)) hahead
  · obtain ⟨-, x, ⟨y, z, t, rfl, -⟩, hread⟩ := mem_ends_webPattern.mp hends
    have hahead : r ++ a = "eyJ".toList ++
        (y ++ (".eyJ".toList ++ (z ++ (".".toList ++ (t ++ d.ahead))))) := by
      have htext := hread.ahead
      simpa using htext
    have hsub : "eyJ".toList ⊆ "AIzaeyJ".toList := List.subset_append_right "AIza".toList _
    exact append_ne_of_not_infix hr hs.no_token (hlast fun hmem => hword (hsub hmem)) hahead

/-- A match that starts in a calm text keeps the rest of the text. -/
theorem prefix_replacement (h : rule ∈ rules) (hs : Calm (w ++ r)) (hr : r ≠ [])
    (hm : matchAt rule.parts ⟨b, r ++ a⟩ = some m) : r <+: rule.replacement m := by
  have hcases : rule = namedValue ∨ rule = addressParameter ∨
      rule ∈ [bearerToken, prefixedKey, webToken] := by
    simpa [rules] using h
  rcases hcases with rfl | rfl | h
  · exact prefix_replacement_namedValue hs hr hm
  · exact prefix_replacement_addressParameter hs hm
  · rw [matchAt_eq_none_of_calm hs hr h] at hm
    cases hm

end

/-! ## Redacted texts -/

section
variable {rule : Rule} {x o s : List Char}

/-- No match starts at a bracket or comma. -/
theorem opensSecret_of_isShut {u : Char} (hu : isShut u = true) (a : List Char) :
    opensSecret (u :: a) = false := by
  refine opensSecret_cons ?_ a
  rcases isShut_iff.mp hu with rfl | rfl | rfl | rfl | rfl <;> decide

/-- A rule keeps a calm text behind a blank, with or without a bracket, that no match goes on
behind. -/
theorem exists_apply_kept (h : rule ∈ rules) (ho : ∀ u ∈ o, isShut u = true) (hs : Calm s)
    (hconfined : ∀ r, Confined rule.parts [] x (' ' :: (o ++ (s ++ r)))) (y : List Char) :
    ∃ x' y', (EndsIn (isShut · = true) x → EndsIn (isShut · = true) x') ∧
      rule.apply (x ++ ' ' :: (o ++ (s ++ y))) = x' ++ ' ' :: (o ++ (s ++ y')) := by
  have hparts : ∀ rule ∈ rules, ∀ p ∈ rule.parts, p.repeatsSingly = true := by decide
  obtain ⟨y', hy'⟩ : ∃ y', Rewrites rule.parts rule.replacement
      ⟨(' ' :: o).reverse ++ (x.reverse ++ []), s ++ y⟩ (s ++ y') :=
    exists_rewrites_append (length_stop_lt h) fun w r m hw hr hm =>
      prefix_replacement h (hw ▸ hs) hr hm
  have hkept : Rewrites rule.parts rule.replacement
      ⟨x.reverse ++ [], (' ' :: o) ++ (s ++ y)⟩ ((' ' :: o) ++ (s ++ y')) := by
    refine .keep (along_of_next fun u hu b a => matchAt_eq_none h ?_) hy'
    rcases List.mem_cons.mp hu with rfl | hu
    · exact opensSecret_cons (by decide) a
    · exact opensSecret_of_isShut (ho u hu) a
  obtain ⟨t₀, ht₀⟩ := exists_rewrites rule.replacement (length_stop_lt h)
    ⟨[], x ++ (' ' :: (o ++ s))⟩
  obtain ⟨x', -, hend, hfront⟩ := ht₀.exists_front (hparts rule h)
    (fun _ _ => replacement_congr h) (endsIn_replacement (P := (isShut · = true)) (by decide) h)
    (by simp) (fun r => by simpa using hconfined r)
  refine ⟨x', y', hend, ?_⟩
  have happly := (hfront y _ (by simpa using hkept)).replaceAll_eq
  simpa [Rule.apply] using happly

/-- So do rules one after another. The first rule is the only one that needs more than a bracket. -/
theorem exists_foldl_kept {rs : List Rule} (h : rs ⊆ rules) (ho : ∀ u ∈ o, isShut u = true)
    (hs : Calm s) (hx : EndsIn (isShut · = true) x ∨ o ≠ [] ∧ rs ⊆ laterRules) (y : List Char) :
    ∃ x' y', rs.foldl (fun t rule => rule.apply t) (x ++ ' ' :: (o ++ (s ++ y))) =
      x' ++ ' ' :: (o ++ (s ++ y')) := by
  induction rs generalizing x y with
  | nil => exact ⟨x, y, rfl⟩
  | cons rule rs ih =>
    have hconfined : ∀ r, Confined rule.parts [] x (' ' :: (o ++ (s ++ r))) := by
      intro r
      cases hx with
      | inl hx => exact confined_of_shut (h (.head _)) hx _
      | inr hx =>
        obtain ⟨u, o, rfl⟩ := List.exists_cons_of_ne_nil hx.1
        exact confined_of_bracket (hx.2 (.head _)) (ho u (.head _)) _
    obtain ⟨x', y', hend, happly⟩ := exists_apply_kept (h (.head _)) ho hs hconfined y
    obtain ⟨x'', y'', hrest⟩ := ih (List.subset_of_cons_subset h)
      (hx.imp hend fun hx => ⟨hx.1, List.subset_of_cons_subset hx.2⟩) y'
    exact ⟨x'', y'', by rw [List.foldl_cons, happly, hrest]⟩

/-- A text `s` with a blank before it that no match goes on behind: the blank comes after a closing
bracket or a comma, or has a bracket after it and no open credential before it. -/
def Shielded (s text : List Char) : Prop :=
  ∃ x o y, (∀ u ∈ o, isShut u = true) ∧
    (EndsIn (isShut · = true) x ∨ ∃ u, o = [u] ∧ leavesOpen x u = false) ∧
    text = x ++ ' ' :: (o ++ (s ++ y))

theorem Shielded.of_append {t text : List Char} (h : Shielded (s ++ t) text) : Shielded s text := by
  obtain ⟨x, o, y, ho, hx, htext⟩ := h
  exact ⟨x, o, t ++ y, ho, hx, by rw [htext, List.append_assoc]⟩

/-- **Redaction keeps a calm text that is shielded from what stands before it.** -/
theorem Shielded.infix_redactChars {text : List Char} (h : Shielded s text) (hs : Calm s) :
    s <:+: redactChars text := by
  obtain ⟨x, o, y, ho, hx, rfl⟩ := h
  obtain ⟨x', y', hredact⟩ : ∃ x' y', redactChars (x ++ ' ' :: (o ++ (s ++ y))) =
      x' ++ ' ' :: (o ++ (s ++ y')) := by
    cases hx with
    | inl hx => exact exists_foldl_kept (List.Subset.refl _) ho hs (.inl hx) y
    | inr hx =>
      obtain ⟨u, rfl, hopen⟩ := hx
      have hnamed : namedValue ∈ rules := .head _
      have hlater : laterRules ⊆ rules := List.subset_cons_self _ _
      obtain ⟨x', y', -, happly⟩ := exists_apply_kept hnamed ho hs
        (fun r => confined_namedValue (ho u (.head _)) hopen _) y
      obtain ⟨x'', y'', hrest⟩ := exists_foldl_kept hlater ho hs
        (.inr ⟨by simp, List.Subset.refl _⟩) y'
      exact ⟨x'', y'', by rw [redactChars, rules_eq, List.foldl_cons, happly, hrest]⟩
  exact ⟨x' ++ ' ' :: o, y', by rw [hredact]; simp⟩

end

end AskMetrics.Redaction
