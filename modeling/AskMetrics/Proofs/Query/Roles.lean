import AskMetrics.Proofs.Query.Verdict
import Mathlib.Data.List.Induction

/-!
# The role of a character

Every character of a text stands outside literals, opens or closes one, or stands inside one. Which
of these it is depends on the character and on what stands before it, also where the text ends
inside a literal or behind a backslash. A mask shows a space for a character inside a literal and
the character itself for any other, so it keeps all places of the text, and masking it again changes
nothing.
-/
namespace AskMetrics.Query

/-! ## Roles -/

/-- What a character is with regard to literals. -/
inductive Role where
  /-- It stands outside any literal. -/
  | outside
  /-- It is the quote that opens a literal. -/
  | opening
  /-- It stands inside a literal. -/
  | inside
  /-- It is the quote that closes a literal. -/
  | closing
  deriving DecidableEq, Repr

/-- What a mask shows for a character of a role. -/
def Role.shown : Role → Char → Char
  | inside, _ => ' '
  | _, u => u

/-- All literals of a text are closed. -/
def Closed (x : List Char) : Prop := ∃ t, Skeleton x t

/-- A text ends inside a literal with the quote `q`, and a quote right behind it closes the
literal. -/
def EndsInside (q : Char) (x : List Char) : Prop :=
  ∃ a body, x = a ++ q :: body ∧ Closed a ∧ isQuote q = true ∧ Body q body

/-- A text ends inside a literal with the quote `q`, and with a backslash that takes the next
character with it. -/
def EndsEscaped (q : Char) (x : List Char) : Prop := ∃ y, x = y ++ ['\\'] ∧ EndsInside q y

/-- The role of a character `u` that has `x` before it. -/
inductive HasRole (x : List Char) (u : Char) : Role → Prop
  | outside (hx : Closed x) (hu : isQuote u = false) : HasRole x u .outside
  | opening (hx : Closed x) (hu : isQuote u = true) : HasRole x u .opening
  /-- Also another quote and a backslash are inside a literal. -/
  | content {q : Char} (hx : EndsInside q x) (hu : u ≠ q) : HasRole x u .inside
  /-- Behind a backslash every character is inside, the quote of the literal too. -/
  | escaped {q : Char} (hx : EndsEscaped q x) : HasRole x u .inside
  | closing (hx : EndsInside u x) : HasRole x u .closing

section
variable {x y s t a : List Char} {u q : Char} {p : Quoting} {r : Role}

/-! ## Texts that grow at the end -/

theorem Skeleton.append {x' y' : List Char} (hx : Skeleton x x') (hy : Skeleton y y') :
    Skeleton (x ++ y) (x' ++ y') := by
  induction hx with
  | nil => exact hy
  | char hc _ ih => exact .char hc ih
  | literal hq hbody _ ih =>
    rw [List.cons_append, List.append_assoc, List.cons_append]
    exact .literal hq hbody ih

theorem Closed.append (hx : Closed x) (hy : Closed y) : Closed (x ++ y) := by
  obtain ⟨x', hx'⟩ := hx
  obtain ⟨y', hy'⟩ := hy
  exact ⟨_, hx'.append hy'⟩

theorem Body.append {body rest : List Char} (hbody : Body q body) (hrest : Body q rest) :
    Body q (body ++ rest) := by
  induction hbody with
  | nil => exact hrest
  | char hq hb _ ih => exact .char hq hb ih
  | escape c _ ih => exact .escape c ih

/-- A literal closes behind a text that ends inside of it. -/
theorem EndsInside.closed (h : EndsInside q x) : Closed (x ++ [q]) := by
  obtain ⟨a, body, rfl, ha, hq, hbody⟩ := h
  have hliteral : Closed (q :: (body ++ [q])) := ⟨[q, q], .literal hq hbody .nil⟩
  simpa using ha.append hliteral

theorem EndsInside.append {rest : List Char} (h : EndsInside q x) (hrest : Body q rest) :
    EndsInside q (x ++ rest) := by
  obtain ⟨a, body, rfl, ha, hq, hbody⟩ := h
  exact ⟨a, body ++ rest, by simp, ha, hq, hbody.append hrest⟩

/-! ## Scanning -/

/-- What stands before a place that a scan from the start of a text reaches. -/
def Leads (x : List Char) : Quoting → Prop
  | .outside => Closed x
  | .inside q => EndsInside q x
  | .escaped q => EndsEscaped q x

/-- One step of a scan. -/
theorem Leads.next (h : Leads x p) (u : Char) : Leads (x ++ [u]) (p.next u) := by
  cases p with
  | outside =>
    by_cases hu : isQuote u = true
    · have hopen : EndsInside u (x ++ [u]) := ⟨x, [], rfl, h, hu, .nil⟩
      simpa [Leads, Quoting.next, hu] using hopen
    · have hchar : Closed [u] := ⟨[u], .char (by simpa using hu) .nil⟩
      simpa [Leads, Quoting.next, hu] using Closed.append h hchar
  | inside q =>
    have hinside : EndsInside q x := h
    by_cases hslash : u = '\\'
    · subst hslash
      exact ⟨x, rfl, hinside⟩
    · by_cases hclose : u = q
      · subst hclose
        simpa [Leads, Quoting.next, hslash] using hinside.closed
      · have hmore : EndsInside q (x ++ [u]) := hinside.append (.char hclose hslash .nil)
        simpa [Leads, Quoting.next, hslash, hclose] using hmore
  | escaped q =>
    obtain ⟨y, rfl, hinside⟩ := h
    have hmore : EndsInside q (y ++ ['\\', u]) := hinside.append (.escape u .nil)
    simpa [Leads, Quoting.next] using hmore

/-- The place that a scan reaches tells what stands before it. The induction is on the text from
its end, as roles look back. -/
theorem leads_after (x : List Char) : Leads x (Quoting.outside.after x) := by
  induction x using List.reverseRecOn with
  | nil => exact ⟨[], .nil⟩
  | append_singleton x u ih =>
    rw [Quoting.after_append]
    exact ih.next u

theorem Closed.after_eq (h : Closed x) : Quoting.outside.after x = .outside := by
  obtain ⟨t, ht⟩ := h
  exact ht.after_outside

theorem EndsInside.after_eq (h : EndsInside q x) : Quoting.outside.after x = .inside q := by
  obtain ⟨a, body, rfl, ha, hq, hbody⟩ := h
  simp [ha.after_eq, Quoting.next, hq, hbody.after_inside]

theorem EndsEscaped.after_eq (h : EndsEscaped q x) : Quoting.outside.after x = .escaped q := by
  obtain ⟨y, rfl, hy⟩ := h
  simp [hy.after_eq, Quoting.next]

/-- A literal is open at the end of a text exactly if the text ends inside of one. -/
theorem leavesOpen_iff : leavesOpen x = true ↔ ∃ q, EndsInside q x ∨ EndsEscaped q x := by
  constructor
  · intro h
    have hleads := leads_after x
    cases hplace : Quoting.outside.after x with
    | outside => simp [leavesOpen, hplace] at h
    | inside q =>
      rw [hplace] at hleads
      exact ⟨q, .inl hleads⟩
    | escaped q =>
      rw [hplace] at hleads
      exact ⟨q, .inr hleads⟩
  · rintro ⟨q, h | h⟩
    · simp [leavesOpen, h.after_eq]
    · simp [leavesOpen, h.after_eq]

/-! ## One role for each character -/

/-- The role of a character at a place. -/
def Quoting.role : Quoting → Char → Role
  | outside, u => if isQuote u then .opening else .outside
  | inside q, u => if u = q then .closing else .inside
  | escaped _, _ => .inside

theorem hasRole_iff : HasRole x u r ↔ r = (Quoting.outside.after x).role u := by
  constructor
  · intro h
    cases h with
    | outside hx hu => simp [hx.after_eq, Quoting.role, hu]
    | opening hx hu => simp [hx.after_eq, Quoting.role, hu]
    | content hx hu => simp [hx.after_eq, Quoting.role, hu]
    | escaped hx => simp [hx.after_eq, Quoting.role]
    | closing hx => simp [hx.after_eq, Quoting.role]
  · rintro rfl
    have hleads := leads_after x
    generalize Quoting.outside.after x = p at hleads
    cases p with
    | outside =>
      by_cases hu : isQuote u = true
      · simpa [Quoting.role, hu] using HasRole.opening hleads hu
      · simpa [Quoting.role, hu] using HasRole.outside hleads (by simpa using hu)
    | inside q =>
      by_cases hu : u = q
      · subst hu
        simpa [Quoting.role] using HasRole.closing hleads
      · simpa [Quoting.role, hu] using HasRole.content hleads hu
    | escaped q => exact .escaped hleads

/-- What a mask shows of a character is what it shows for the role. A backslash is no quote, so it
never closes a literal. -/
theorem Quoting.Proper.shown_role (h : p.Proper) (u : Char) : (p.role u).shown u = p.shown u := by
  cases p with
  | outside => by_cases hu : isQuote u = true <;> simp [Quoting.role, Role.shown, Quoting.shown, hu]
  | inside q =>
    have hslash : '\\' ≠ q := (isQuote_ne_backslash h).symm
    by_cases hclose : u = q
    · subst hclose
      simp [Quoting.role, Role.shown, Quoting.shown, hslash.symm]
    · simp [Quoting.role, Role.shown, Quoting.shown, hclose]
  | escaped q => rfl

/-! ## Masks -/

/-- The mask of a text at a character. -/
theorem getElem?_mask (x : List Char) (u : Char) (y : List Char) :
    (mask (x ++ u :: y))[x.length]? = some ((Quoting.outside.after x).shown u) := by
  have hlength : (maskFrom .outside x).length = x.length := length_maskFrom .outside x
  rw [mask, maskFrom_append, maskFrom, List.getElem?_append_right (Nat.le_of_eq hlength), hlength,
    Nat.sub_self]
  rfl

/-- A mask shows of what is shown just that. -/
theorem Quoting.Proper.shown_shown (h : p.Proper) (u : Char) :
    p.settled.shown (p.shown u) = p.shown u := by
  cases p with
  | outside => rfl
  | inside q =>
    by_cases hclose : u = q
    · subst hclose
      simp [Quoting.settled, Quoting.shown, isQuote_ne_backslash h]
    · simp [Quoting.settled, Quoting.shown, hclose]
  | escaped q => simp [Quoting.settled, Quoting.shown]

/-- Masking what has been masked changes nothing. -/
theorem Quoting.Proper.maskFrom_maskFrom (h : p.Proper) (s : List Char) :
    maskFrom p.settled (maskFrom p s) = maskFrom p s := by
  induction s generalizing p with
  | nil => rfl
  | cons u s ih => rw [maskFrom, maskFrom, h.shown_shown, h.next_shown, ih (h.next u)]

/-- **Masks.** A mask has as many characters as the text, each of them the character of the text or
a space. Every character of the text has one role, and the mask shows a space for those inside
literals and the character itself for all others. Masking again changes nothing, and a literal stays
open at the end of a mask as in the text, that is exactly if the text ends inside of it. -/
theorem mask_roles (s : List Char) :
    (mask s).length = s.length ∧
      (∀ i : Fin s.length, (mask s)[i]? = some s[i] ∨ (mask s)[i]? = some ' ') ∧
      (∀ i : Fin s.length, ∃ r, (∀ r', HasRole (s.take i) s[i] r' ↔ r' = r) ∧
        (mask s)[i]? = some (r.shown s[i])) ∧
      (mask (mask s) = mask s ∧ leavesOpen (mask s) = leavesOpen s) ∧
      (leavesOpen s = true ↔ ∃ q, EndsInside q s ∨ EndsEscaped q s) := by
  have hshown : ∀ i : Fin s.length,
      (mask s)[i]? = some ((Quoting.outside.after (s.take i)).shown s[i]) := by
    intro i
    have hmask := getElem?_mask (s.take i) s[i] (s.drop (i + 1))
    rw [Fin.getElem_fin, List.getElem_cons_drop, List.take_append_drop, List.length_take,
      Nat.min_eq_left (Nat.le_of_lt i.isLt)] at hmask
    exact hmask
  have hproper : ∀ x, (Quoting.outside.after x).Proper :=
    Quoting.Proper.after (p := .outside) trivial
  refine ⟨length_maskFrom .outside s, fun i => ?_, fun i => ?_, ⟨?_, leavesOpen_mask s⟩,
    leavesOpen_iff⟩
  · rw [hshown i]
    exact (shown_eq_or _ _).imp (congrArg some) (congrArg some)
  · refine ⟨(Quoting.outside.after (s.take i)).role s[i], fun _ => hasRole_iff, ?_⟩
    rw [hshown i, (hproper _).shown_role]
  · exact Quoting.Proper.maskFrom_maskFrom (p := .outside) trivial s

/-- A literal with another quote and an escaped quote inside, one that closes, and one left open
behind a backslash. -/
example : mask "a\x7bb=\"x'\\\"\"\x7d '\"' \x60c\\".toList =
    "a\x7bb=\"    \"\x7d ' ' \x60  ".toList := by
  decide

end

end AskMetrics.Query
