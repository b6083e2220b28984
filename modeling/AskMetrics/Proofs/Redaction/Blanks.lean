import AskMetrics.Proofs.Redaction.Markers

/-!
# How matches begin, and the blanks in them

The rules of redaction look for words, and each of them begins with two letters out of a short list.
Most of them look for something without blanks. The others read a blank in three places only: before
an equals sign or colon, behind it, and behind the word that introduces a bearer token. So most
blanks of a text part it in two, and no match reaches from one part into the other.
-/
namespace AskMetrics.Redaction

open AskMetrics.Text

/-! ## How matches begin -/

/-- The first two letters of the words that the rules look for. -/
def openings : List (Char × Char) :=
  [('x', '-'), ('a', 'p'), ('a', 'c'), ('t', 'o'), ('s', 'e'), ('p', 'a'), ('c', 'r'), ('a', 'u'),
    ('b', 'e'), ('a', 'i'), ('e', 'y')]

/-- Whether a text begins like something that a rule looks for. -/
def opensSecret : List Char → Bool
  | u :: v :: _ =>
    u == '?' || u == '&' || openings.any fun (l, l') => sameLetter l u && sameLetter l' v
  | _ => false

/-- A shape that is matched only where a text begins like something that a rule looks for. -/
def Opening (p : Pattern) : Prop := ∀ c d, d ∈ p.ends c → opensSecret c.ahead = true

namespace Opening
variable {p q : Pattern}

theorem andThen (hp : Opening p) : Opening (.andThen p q) := by
  intro c d hd
  obtain ⟨e, he, -⟩ := Pattern.mem_ends_andThen.mp hd
  exact hp c e he

theorem edge (hp : Opening p) : Opening (.andThen .edge p) := by
  intro c d hd
  obtain ⟨e, he, hd'⟩ := Pattern.mem_ends_andThen.mp hd
  obtain ⟨-, rfl⟩ := Pattern.mem_ends_edge.mp he
  exact hp e d hd'

theorem orElse (hp : Opening p) (hq : Opening q) : Opening (.orElse p q) :=
  fun c d hd => (Pattern.mem_ends_orElse.mp hd).elim (hp c d) (hq c d)

theorem optional (hp : Opening p) (hq : Opening q) : Opening (.andThen (.optional p) q) := by
  intro c d hd
  obtain ⟨e, he, hd'⟩ := Pattern.mem_ends_andThen.mp hd
  rcases Pattern.mem_ends_orElse.mp he with he | he
  · exact hp c e he
  · obtain rfl := Pattern.mem_ends_empty.mp he
    exact hq e d hd'

theorem anyCase {s : String} (h : ∃ o ∈ openings, [o.1, o.2] <+: s.toList) :
    Opening (.anyCase s) := by
  intro c d hd
  obtain ⟨x, hx, hread⟩ := Pattern.mem_ends_anyCase.mp hd
  obtain ⟨⟨l, l'⟩, hmem, rest, hrest⟩ := h
  rw [← hrest] at hx
  cases hx with
  | @cons _ u _ x hu hx =>
    cases hx with
    | @cons _ v _ x hv hx =>
      rw [hread.ahead]
      simp only [opensSecret, List.cons_append, Bool.or_eq_true, List.any_eq_true]
      exact .inr ⟨(l, l'), hmem, by simp [hu, hv]⟩

theorem literal {s : String} {u v : Char} (hs : [u, v] <+: s.toList)
    (h : ∀ a, opensSecret (u :: v :: a) = true) : Opening (.literal s) := by
  intro c d hd
  obtain ⟨rest, hrest⟩ := hs
  rw [(Pattern.mem_ends_literal.mp hd).ahead, ← hrest]
  exact h _

end Opening

/-- A match begins like something that its rule looks for. -/
theorem opensSecret_of_mem_ends {rule : Rule} (h : rule ∈ rules) :
    Opening (.sequence rule.parts) := by
  simp only [rules, List.mem_cons, List.not_mem_nil, or_false] at h
  rcases h with rfl | rfl | rfl | rfl | rfl
  · refine .andThen (.edge ?_)
    refine .orElse (.optional (.anyCase ?_) (.andThen (.anyCase ?_)))
      (.orElse (.andThen (.anyCase ?_)) (.orElse (.anyCase ?_) (.orElse (.anyCase ?_)
        (.orElse (.anyCase ?_) (.orElse (.anyCase ?_) (.anyCase ?_)))))) <;> decide
  · intro c d hd
    obtain ⟨_, hd, -⟩ := Pattern.mem_ends_andThen.mp hd
    obtain ⟨d₁, hone, hd⟩ := Pattern.mem_ends_andThen.mp hd
    obtain ⟨d₂, hname, hequals⟩ := Pattern.mem_ends_andThen.mp hd
    obtain ⟨u, hu, hone⟩ := Pattern.mem_ends_one.mp hone
    obtain ⟨x, hname⟩ := Pattern.exists_reads hname
    have hread := hname.trans (Pattern.mem_ends_char.mp hequals)
    obtain ⟨v, y, hv⟩ := List.exists_cons_of_ne_nil (l := x ++ ['=']) (by simp)
    rw [hone.ahead, hread.ahead, hv]
    exact (Bool.or_eq_true ..).mpr (.inl hu)
  · refine .edge (.andThen (.anyCase ?_))
    decide
  · refine .edge (.andThen (.literal (u := 'A') (v := 'I') ?_ fun _ => rfl))
    decide
  · refine .edge (.andThen (.literal (u := 'e') (v := 'y') ?_ fun _ => rfl))
    decide

/-! ## Blanks in matches -/

/-- A character behind which no blank is a part of a match: not a blank, not the last letter of the
word that introduces a bearer token, and not between a name and a value. -/
def isFirm (u : Char) : Bool := !isBlank u && !(['r', 'R', '=', ':'].contains u)

/-- Each blank has a character before it that is not firm. -/
def Soft (s : List Char) : Prop := s.IsChain fun u v => isBlank v = true → isFirm u = false

/-- A text with no blank between a firm character and the letter `a`, and with none at its end. -/
structure Separated (s : List Char) : Prop where
  ne_nil : s ≠ []
  not_firm : ∀ x u y, s = x ++ u :: ' ' :: 'a' :: y → isFirm u = false
  last : ∀ v ∈ s.getLast?, isBlank v = false

section
variable {s t : List Char}

theorem not_isFirm_of_isBlank {u : Char} (h : isBlank u = true) : isFirm u = false := by
  simp [isFirm, h]

theorem isChain_of_forall_left {R : Char → Char → Prop} (h : ∀ u ∈ s, ∀ v, R u v) : s.IsChain R :=
  List.isChain_iff_forall_rel_of_append_cons_cons.mpr fun u v _ _ hs => h u (by simp [hs]) v

theorem isChain_of_forall_right {R : Char → Char → Prop} (h : ∀ v ∈ s, ∀ u, R u v) : s.IsChain R :=
  List.isChain_iff_forall_rel_of_append_cons_cons.mpr fun u v _ _ hs => h v (by simp [hs]) u

theorem soft_of_not_isBlank (h : ∀ u ∈ s, isBlank u = false) : Soft s :=
  isChain_of_forall_right fun v hv _ hblank => by simp [h v hv] at hblank

theorem soft_of_not_isFirm (h : ∀ u ∈ s, isFirm u = false) : Soft s :=
  isChain_of_forall_left fun u hu _ _ => h u hu

theorem Soft.append (hs : Soft s) (ht : Soft t)
    (h : (∀ u ∈ s.getLast?, isFirm u = false) ∨ ∀ v ∈ t.head?, isBlank v = false) :
    Soft (s ++ t) := by
  refine List.isChain_append.mpr ⟨hs, ht, fun u hu v hv hblank => ?_⟩
  rcases h with h | h
  · exact h u hu
  · simp [h v hv] at hblank

theorem Soft.separated (h : Soft s) (hne : s ≠ [])
    (hlast : ∀ v ∈ s.getLast?, isBlank v = false) : Separated s where
  ne_nil := hne
  not_firm _ _ _ hs := List.isChain_iff_forall_rel_of_append_cons_cons.mp h hs (by decide)
  last := hlast

/-- The same for a text with an equals sign or colon `e` in it. A blank before the sign has another
blank behind it, or the sign. -/
theorem separated_of_sign {e : Char} (he : e = '=' ∨ e = ':')
    (hs : (s ++ [e]).IsChain fun u v => isBlank u = true → isBlank v = true ∨ v = e)
    (ht : Soft (e :: t)) (hne : t ≠ []) (hlast : ∀ v ∈ t.getLast?, isBlank v = false) :
    Separated (s ++ e :: t) where
  ne_nil := by simp
  not_firm := by
    have hsign : ' ' ≠ e ∧ 'a' ≠ e := by rcases he with rfl | rfl <;> decide
    intro x u y heq
    rw [List.append_cons x u, List.append_eq_append_iff] at heq
    rcases heq with ⟨w, hw, hrest⟩ | ⟨w, hw, hrest⟩
    · rcases w.eq_nil_or_concat with rfl | ⟨w, v, rfl⟩
      · exact absurd (List.cons.inj hrest).1.symm hsign.1
      · obtain rfl : u = v := by
          rw [List.concat_eq_append, ← List.append_assoc] at hw
          simpa using (List.append_inj' hw rfl).2
        have hsplit : e :: t = w ++ u :: ' ' :: 'a' :: y := by simpa using hrest
        exact List.isChain_iff_forall_rel_of_append_cons_cons.mp ht hsplit (by decide)
    · -- the blank is before the sign, and the letter behind it is neither a blank nor the sign
      obtain ⟨z, hz⟩ : ∃ z, s ++ [e] = (x ++ [u]) ++ ' ' :: 'a' :: z := by
        match w with
        | [] => exact absurd (List.cons.inj hrest).1 hsign.1
        | [v] => exact absurd (List.cons.inj (List.cons.inj hrest).2).1 hsign.2
        | v :: v' :: w =>
          obtain ⟨hv, htail⟩ := List.cons.inj hrest
          obtain ⟨hv', -⟩ := List.cons.inj htail
          exact ⟨w ++ [e], by rw [hw, ← hv, ← hv', List.append_assoc]; rfl⟩
      have hnext := List.isChain_iff_forall_rel_of_append_cons_cons.mp hs hz (by decide)
      rcases hnext with hblank | hequal
      · exact absurd hblank (by decide)
      · exact absurd hequal hsign.2
  last := by rwa [List.getLast?_append_of_ne_nil _ (by simp), List.getLast?_cons_of_ne_nil hne]

end

/-! ## What words read -/

/-- A class that no capital and neither of the two other characters that are read for letters is
of. -/
structure Caseless (g : Char → Bool) : Prop where
  not_capital : ∀ v, g v = true → ¬ (65 ≤ v.toNat ∧ v.toNat ≤ 90)
  longS : g '\u017f' = false
  kelvin : g '\u212a' = false

/-- The words that the names of credentials are made of. -/
def credentialWords : List String :=
  ["x-goog-", "api", "_-", "key", "access", "token", "secret", "password", "credential",
    "authorization"]

theorem readsOnly_maybeOf {f : Char → Bool} {s : String} (h : s.toList.all f = true) :
    ReadsOnly f (maybeOf s) :=
  .optional (.one fun u hu => List.all_eq_true.mp h u (by simpa using hu))

namespace Caseless
variable {g : Char → Bool}

/-- A character that is read for a letter is not of the class if the letter is not. -/
theorem eq_false (hg : Caseless g) {letter u : Char} (hletter : g letter = false)
    (h : sameLetter letter u = true) : g u = false := by
  by_contra hu
  have hsame := of_sameLetter hg.not_capital hg.longS hg.kelvin h (by simpa using hu)
  simp [hletter] at hsame

theorem readsOnly_anyCase (hg : Caseless g) {s : String} (h : s.toList.all (!g ·) = true) :
    ReadsOnly (!g ·) (.anyCase s) := by
  refine .anyCase fun letter hletter u hsame => ?_
  have hnot := List.all_eq_true.mp h letter hletter
  simp only [Bool.not_eq_true'] at hnot ⊢
  exact hg.eq_false hnot hsame

theorem readsOnly_credentialName (hg : Caseless g)
    (h : ∀ s ∈ credentialWords, s.toList.all (!g ·) = true) :
    ReadsOnly (!g ·) credentialName := by
  have hword : ∀ s ∈ credentialWords, ReadsOnly (!g ·) (.anyCase s) :=
    fun s hs => hg.readsOnly_anyCase (h s hs)
  have hmark : ReadsOnly (!g ·) (maybeOf "_-") := readsOnly_maybeOf (h _ (by decide))
  refine .orElse (.andThen (.optional (hword _ ?_)) (.andThen (hword _ ?_) (.andThen hmark
    (hword _ ?_)))) (.orElse (.andThen (hword _ ?_) (.andThen hmark (hword _ ?_)))
      (.orElse (hword _ ?_) (.orElse (hword _ ?_) (.orElse (hword _ ?_) (.orElse (hword _ ?_)
        (hword _ ?_)))))) <;> decide

end Caseless

theorem caseless_isBlank : Caseless isBlank where
  not_capital v hv hcode := by
    have hname : isNameChar v = true := isNameChar_iff.mpr (by omega)
    simp [isBlank_of_isNameChar hname] at hv
  longS := by decide
  kelvin := by decide

/-- Whether a character is not a blank. -/
def isSolid (u : Char) : Bool := !isBlank u

theorem not_isBlank_of_mem {s : List Char} (h : s.all isSolid = true) :
    ∀ u ∈ s, isBlank u = false := by
  simpa [isSolid] using h

theorem readsOnly_solid_anyCase {s : String} (h : s.toList.all isSolid = true) :
    ReadsOnly isSolid (.anyCase s) :=
  caseless_isBlank.readsOnly_anyCase h

theorem readsOnly_solid_credentialName : ReadsOnly isSolid credentialName :=
  caseless_isBlank.readsOnly_credentialName (by decide)

section
variable {c d : Cursor}

theorem Introduces.soft {w : List Char} (h : Introduces w) :
    Soft w ∧ (∀ u ∈ w.head?, isBlank u = false) ∧ w ≠ [] := by
  obtain ⟨x, y, rfl, hx, hne, hy⟩ := h
  have hsolid : ∀ u ∈ x, isBlank u = false := by
    intro u hu
    obtain ⟨letter, hletter, hsame⟩ := Pattern.exists_letter_of_mem hx u hu
    have hletters : "bearer".toList.all isSolid = true := by decide
    exact caseless_isBlank.eq_false (not_isBlank_of_mem hletters letter hletter) hsame
  have hlast : ∀ u ∈ x.getLast?, isFirm u = false := by
    intro u hu
    have hback := List.forall₂_reverse_iff.mpr hx
    rw [show "bearer".toList.reverse = 'r' :: "eraeb".toList by decide] at hback
    obtain ⟨v, y, hv, -, hy⟩ := List.forall₂_cons_left_iff.mp hback
    rw [← List.head?_reverse, hy] at hu
    obtain rfl : v = u := by simpa using hu
    have hlower : v.toLower = 'r' := by simpa [sameLetter] using hv
    have hletter : v = 'r' ∨ v = 'R' :=
      (toLower_eq_iff (by decide) (by decide) (by decide)).mp hlower
    rcases hletter with rfl | rfl <;> decide
  have hxne : x ≠ [] := by
    rintro rfl
    simp at hx
  refine ⟨.append (soft_of_not_isBlank hsolid) (soft_of_not_isFirm fun u hu =>
    not_isFirm_of_isBlank (hy u hu)) (.inl hlast), fun u hu => ?_, by simp [hxne]⟩
  rw [List.head?_append_of_ne_nil _ hxne] at hu
  exact hsolid u (List.mem_of_mem_head? hu)

/-- A value, with or without the word that introduces a bearer token. -/
theorem exists_reads_value
    (hd : d ∈ (Pattern.andThen (.optional (.andThen (.anyCase "bearer") .someBlanks))
      (.some (.one fun u => !isBlank u && !"\"'&,;".toList.contains u))).ends c) :
    ∃ t, c.Reads t d ∧ t ≠ [] ∧ Soft t ∧ (∀ u ∈ t.head?, isBlank u = false) ∧
      ∀ u ∈ t.getLast?, isBlank u = false := by
  obtain ⟨e, hintro, hvalue⟩ := Pattern.mem_ends_andThen.mp hd
  obtain ⟨v, hne, hv, hread⟩ := Pattern.mem_ends_run.mp hvalue
  have hsolid : ∀ u ∈ v, isBlank u = false := fun u hu => by
    simpa using (Bool.and_eq_true_iff.mp (hv u hu)).1
  have hhead : ∀ u ∈ v.head?, isBlank u = false := fun u hu => hsolid u (List.mem_of_mem_head? hu)
  have hlast : ∀ u ∈ v.getLast?, isBlank u = false := fun u hu =>
    hsolid u (List.mem_of_mem_getLast? hu)
  rcases Pattern.mem_ends_orElse.mp hintro with hintro | hintro
  · obtain ⟨e', hword, hblanks⟩ := Pattern.mem_ends_andThen.mp hintro
    obtain ⟨x, hx, hxread⟩ := Pattern.mem_ends_anyCase.mp hword
    obtain ⟨y, hyne, hy, hyread⟩ := Pattern.mem_ends_run.mp hblanks
    obtain ⟨hsoft, hfirst, hnil⟩ := Introduces.soft ⟨x, y, rfl, hx, hyne, hy⟩
    refine ⟨x ++ y ++ v, (hxread.trans hyread).trans hread, by simp [hne],
      hsoft.append (soft_of_not_isBlank hsolid) (.inr hhead), ?_, ?_⟩
    · rwa [List.head?_append_of_ne_nil _ hnil]
    · rwa [List.getLast?_append_of_ne_nil _ hne]
  · obtain rfl := Pattern.mem_ends_empty.mp hintro
    exact ⟨v, hread, hne, soft_of_not_isBlank hsolid, hhead, hlast⟩

/-- An equals sign or colon, with blanks and quotes around it. -/
theorem exists_reads_assignment (hd : d ∈ assignment.ends c) :
    ∃ k y e y' k', c.Reads (k ++ (y ++ e :: (y' ++ k'))) d ∧ (e = '=' ∨ e = ':') ∧
      (∀ u ∈ y, isBlank u = true) ∧ (∀ u ∈ y', isBlank u = true) ∧
      (∀ u ∈ k, isSolid u = true) ∧ ∀ u ∈ k', isSolid u = true := by
  obtain ⟨e₁, hquote, hd⟩ := Pattern.mem_ends_andThen.mp hd
  obtain ⟨e₂, hblanks, hd⟩ := Pattern.mem_ends_andThen.mp hd
  obtain ⟨e₃, hsign, hd⟩ := Pattern.mem_ends_andThen.mp hd
  obtain ⟨e₄, hblanks', hquote'⟩ := Pattern.mem_ends_andThen.mp hd
  have hquotes : ReadsOnly isSolid (maybeOf "\"'") := readsOnly_maybeOf (by decide)
  obtain ⟨k, hk, hksolid⟩ := hquotes _ _ hquote
  obtain ⟨y, hyblank, hy⟩ := Pattern.mem_ends_blanks.mp hblanks
  obtain ⟨e, he, hread⟩ := Pattern.mem_ends_one.mp hsign
  obtain ⟨y', hyblank', hy'⟩ := Pattern.mem_ends_blanks.mp hblanks'
  obtain ⟨k', hk', hksolid'⟩ := hquotes _ _ hquote'
  exact ⟨k, y, e, y', k', hk.trans (hy.trans (hread.trans (hy'.trans hk'))), by simpa using he,
    hyblank, hyblank', hksolid, hksolid'⟩

theorem separated_of_namedValue (hd : d ∈ (Pattern.sequence namedValue.parts).ends c) :
    ∃ x, c.Reads x d ∧ Separated x := by
  obtain ⟨d₁, hname, hd⟩ := Pattern.mem_ends_andThen.mp hd
  obtain ⟨d₂, hplural, hd⟩ := Pattern.mem_ends_andThen.mp hd
  obtain ⟨d₃, hassign, hvalue⟩ := Pattern.mem_ends_andThen.mp hd
  obtain ⟨n, hn, hnsolid⟩ := ReadsOnly.edge.andThen readsOnly_solid_credentialName _ _ hname
  obtain ⟨p, hp, hpsolid⟩ :=
    ReadsOnly.optional (readsOnly_solid_anyCase (s := "s") (by decide)) _ _ hplural
  obtain ⟨k, y, e, y', k', hassign, he, hy, hy', hk, hk'⟩ := exists_reads_assignment hassign
  obtain ⟨t, ht, htne, htsoft, hhead, hlast⟩ := exists_reads_value hvalue
  have hsolid : ∀ {x : List Char}, (∀ u ∈ x, isSolid u = true) → ∀ u ∈ x, isBlank u = false :=
    fun h u hu => by simpa [isSolid] using h u hu
  -- before the sign there are solid characters first and blanks after them
  have hbefore : (n ++ p ++ k ++ y ++ [e]).IsChain
      fun u v => isBlank u = true → isBlank v = true ∨ v = e := by
    have hfirst : ∀ u ∈ n ++ p ++ k, ∀ v, isBlank u = true → isBlank v = true ∨ v = e := by
      intro u hu v hblank
      simp only [List.mem_append] at hu
      rcases hu with (hu | hu) | hu
      · simp [hsolid hnsolid u hu] at hblank
      · simp [hsolid hpsolid u hu] at hblank
      · simp [hsolid hk u hu] at hblank
    have hnext : ∀ v ∈ y ++ [e], ∀ u, isBlank u = true → isBlank v = true ∨ v = e := by
      intro v hv _ _
      exact (List.mem_append.mp hv).imp (hy v) List.mem_singleton.mp
    rw [List.append_assoc _ y]
    exact List.isChain_append.mpr ⟨isChain_of_forall_left hfirst, isChain_of_forall_right hnext,
      fun u hu v _ => hfirst u (List.mem_of_mem_getLast? hu) v⟩
  -- behind it a blank has the sign, a blank or the last letter of a word before it
  have hbehind : Soft (e :: (y' ++ (k' ++ t))) := by
    have hvalue : Soft (k' ++ t) := (soft_of_not_isBlank (hsolid hk')).append htsoft (.inr hhead)
    have hblanks : Soft (y' ++ (k' ++ t)) :=
      (soft_of_not_isFirm fun u hu => not_isFirm_of_isBlank (hy' u hu)).append hvalue
        (.inl fun u hu => not_isFirm_of_isBlank (hy' u (List.mem_of_mem_getLast? hu)))
    refine (soft_of_not_isFirm (s := [e]) ?_).append hblanks (.inl ?_) <;>
      rcases he with rfl | rfl <;> simp <;> decide
  refine ⟨n ++ p ++ k ++ y ++ e :: (y' ++ (k' ++ t)), ?_, separated_of_sign he hbefore hbehind
    (by simp [htne]) ?_⟩
  · simpa using hn.trans (hp.trans (hassign.trans ht))
  · rwa [← List.append_assoc, List.getLast?_append_of_ne_nil _ htne]

theorem readsOnly_solid_addressParameter :
    ReadsOnly isSolid (.sequence addressParameter.parts) := by
  have hmark : ∀ u, (u == '?' || u == '&') = true → isSolid u = true := by
    intro u hu
    have hmem : u = '?' ∨ u = '&' := by simpa using hu
    rcases hmem with rfl | rfl <;> decide
  have hequals : ∀ u, (u == '=') = true → isSolid u = true := by
    intro u hu
    obtain rfl : u = '=' := by simpa using hu
    decide
  have hvalue : ∀ u, (!isBlank u && !"&\"'".toList.contains u) = true → isSolid u = true :=
    fun u hu => (Bool.and_eq_true_iff.mp hu).1
  refine .andThen (.andThen (.one hmark) (.andThen (.orElse (readsOnly_solid_anyCase ?_)
    (.orElse (readsOnly_solid_anyCase ?_) (readsOnly_solid_anyCase ?_))) (.one hequals)))
      (.andThen (.one hvalue) (.many_one hvalue)) <;> decide

theorem not_isBlank_of_isKeyChar {u : Char} (h : isKeyChar u = true) : isBlank u = false := by
  by_cases hname : isNameChar u = true
  · exact isBlank_of_isNameChar hname
  · obtain rfl : u = '-' := by simp_all [isKeyChar, isNameChar]
    decide

theorem not_isBlank_of_isTokenChar {u : Char} (h : isTokenChar u = true) : isBlank u = false := by
  by_cases hname : isNameChar u = true
  · exact isBlank_of_isNameChar hname
  · have hrest : (u = '\u017f' ∨ u = '\u212a') ∨ u ∈ "._~+/-".toList := by
      simp_all [isTokenChar, isAnyLetter, isNameChar, Char.isAlphanum]
    have hothers : "._~+/-".toList.all isSolid = true := by decide
    rcases hrest with (rfl | rfl) | hmem
    · decide
    · decide
    · exact not_isBlank_of_mem hothers u hmem

/-- What is read without any blanks. -/
theorem exists_separated_of_reads {x : List Char} (hread : c.Reads x d) (hne : x ≠ [])
    (hx : ∀ u ∈ x, isBlank u = false) : ∃ x, c.Reads x d ∧ Separated x :=
  ⟨x, hread, (soft_of_not_isBlank hx).separated hne fun v hv => hx v (List.mem_of_mem_getLast? hv)⟩

theorem separated_of_addressParameter
    (hd : d ∈ (Pattern.sequence addressParameter.parts).ends c) :
    ∃ x, c.Reads x d ∧ Separated x := by
  obtain ⟨x, hread, hx⟩ := readsOnly_solid_addressParameter c d hd
  have hne : x ≠ [] := by
    obtain ⟨e, he, hvalue⟩ := Pattern.mem_ends_andThen.mp hd
    obtain ⟨y, hy⟩ := Pattern.exists_reads he
    obtain ⟨z, hz, -, hzread⟩ := Pattern.mem_ends_run.mp hvalue
    rw [← hread.upTo, (hy.trans hzread).upTo]
    simp [hz]
  exact exists_separated_of_reads hread hne fun u hu => by simpa [isSolid] using hx u hu

theorem separated_of_bearerToken (hd : d ∈ (Pattern.sequence bearerToken.parts).ends c) :
    ∃ x, c.Reads x d ∧ Separated x := by
  obtain ⟨-, w, x, y, hw, hne, hx, hy, hread⟩ := mem_ends_bearerPattern.mp hd
  have hsolid : ∀ u ∈ x ++ y, isBlank u = false := by
    intro u hu
    rcases List.mem_append.mp hu with hu | hu
    · exact not_isBlank_of_isTokenChar (hx u hu)
    · rw [hy u hu]
      decide
  have hxy : x ++ y ≠ [] := by simp [hne]
  have hsoft : Soft (w ++ (x ++ y)) := hw.soft.1.append (soft_of_not_isBlank hsolid)
    (.inr fun u hu => hsolid u (List.mem_of_mem_head? hu))
  refine ⟨w ++ (x ++ y), hread, hsoft.separated (by simp [hne]) fun v hv => ?_⟩
  rw [List.getLast?_append_of_ne_nil _ hxy] at hv
  exact hsolid v (List.mem_of_mem_getLast? hv)

theorem IsPrefixedKey.not_isBlank {x : List Char} (h : IsPrefixedKey x) :
    ∀ u ∈ x, isBlank u = false := by
  obtain ⟨key, rfl, -, hkey⟩ := h
  have hstart : "AIza".toList.all isSolid = true := by decide
  exact List.forall_mem_append.mpr
    ⟨not_isBlank_of_mem hstart, fun u hu => not_isBlank_of_isKeyChar (hkey u hu)⟩

theorem IsWebToken.not_isBlank {x : List Char} (h : IsWebToken x) : ∀ u ∈ x, isBlank u = false := by
  obtain ⟨y, z, w, rfl, ⟨-, hy⟩, ⟨-, hz⟩, -, hw⟩ := h
  have hfixed : ∀ s ∈ ["eyJ", ".eyJ", "."], s.toList.all isSolid = true := by decide
  have hpart : ∀ {r : List Char}, (∀ u ∈ r, isKeyChar u = true) → ∀ u ∈ r, isBlank u = false :=
    fun h u hu => not_isBlank_of_isKeyChar (h u hu)
  intro u hu
  simp only [List.mem_append] at hu
  rcases hu with ((((hu | hu) | hu) | hu) | hu) | hu
  · exact not_isBlank_of_mem (hfixed _ (by simp)) u hu
  · exact hpart hy u hu
  · exact not_isBlank_of_mem (hfixed _ (by simp)) u hu
  · exact hpart hz u hu
  · exact not_isBlank_of_mem (hfixed _ (by simp)) u hu
  · exact hpart hw u hu

theorem separated_of_prefixedKey (hd : d ∈ (Pattern.sequence prefixedKey.parts).ends c) :
    ∃ x, c.Reads x d ∧ Separated x := by
  obtain ⟨-, x, hx, hread⟩ := mem_ends_keyPattern.mp hd
  refine exists_separated_of_reads hread ?_ hx.not_isBlank
  obtain ⟨key, rfl, -⟩ := hx
  simp

theorem separated_of_webToken (hd : d ∈ (Pattern.sequence webToken.parts).ends c) :
    ∃ x, c.Reads x d ∧ Separated x := by
  obtain ⟨-, x, hx, hread⟩ := mem_ends_webPattern.mp hd
  refine exists_separated_of_reads hread ?_ hx.not_isBlank
  obtain ⟨y, z, w, rfl, -⟩ := hx
  simp

/-- The blanks in a match. -/
theorem separated_of_mem_ends {rule : Rule} (h : rule ∈ rules)
    (hd : d ∈ (Pattern.sequence rule.parts).ends c) : ∃ x, c.Reads x d ∧ Separated x := by
  simp only [rules, List.mem_cons, List.not_mem_nil, or_false] at h
  rcases h with rfl | rfl | rfl | rfl | rfl
  · exact separated_of_namedValue hd
  · exact separated_of_addressParameter hd
  · exact separated_of_bearerToken hd
  · exact separated_of_prefixedKey hd
  · exact separated_of_webToken hd

end

end AskMetrics.Redaction
