import AskMetrics.Proofs.Text.Pattern
import Mathlib.Data.List.Chain

/-!
# Scanning a text

A scan decides at each place of a text whether a match starts there. `Along` says that something
holds at each place of a part of a text, and `Scans` describes the outcome of a scan as a relation
without fuel, so that the scan of a text can be put together from the scans of its parts, the last
part first.
-/
namespace AskMetrics.Text

/-! ## Each place of a part -/

/-- `Q` holds at each place before a character of `x`, a part with `b` before it, read backwards,
and `a` after it. -/
def Along (Q : List Char → List Char → Prop) : List Char → List Char → List Char → Prop
  | _, [], _ => True
  | b, u :: x, a => Q b (u :: (x ++ a)) ∧ Along Q (u :: b) x a

section
variable {Q : List Char → List Char → Prop} {b x y a : List Char}

@[simp] theorem along_nil : Along Q b [] a := trivial

@[simp] theorem along_cons {u : Char} :
    Along Q b (u :: x) a ↔ Q b (u :: (x ++ a)) ∧ Along Q (u :: b) x a := Iff.rfl

theorem along_append :
    Along Q b (x ++ y) a ↔ Along Q b x (y ++ a) ∧ Along Q (x.reverse ++ b) y a := by
  induction x generalizing b with
  | nil => simp
  | cons u x ih => simp [ih, and_assoc]

/-- What holds along a whole text holds at each of its places but the last. -/
theorem Along.at_place {s : List Char} (h : Along Q [] s []) {u : Char}
    (hs : s = b.reverse ++ u :: a) : Q b (u :: a) := by
  rw [hs, along_append] at h
  simpa using h.2.1

/-- Along a joined text: each part holds its own when `B` is true of what is before it and `A` of
what is after it, and the separator brings both about. -/
theorem along_joinWith {B A : List Char → Prop} {separator : List Char} {parts : List (List Char)}
    (hpart : ∀ part ∈ parts, ∀ b a, B b → A a → Along Q b part a)
    (hseparator : ∀ b a, Along Q b separator a) (hB : ∀ b, B (separator.reverse ++ b))
    (hA : ∀ a, A (separator ++ a)) (hb : B b) (ha : A a) :
    Along Q b (joinWith separator parts) a := by
  induction parts generalizing b with
  | nil => trivial
  | cons part parts ih =>
    have hhead := hpart part (.head _)
    cases parts with
    | nil => exact hhead b a hb ha
    | cons next parts =>
      rw [joinWith, along_append, along_append]
      · refine ⟨⟨hhead b _ hb (hA _), hseparator _ _⟩, ?_⟩
        rw [List.reverse_append, List.append_assoc]
        exact ih (fun p hp => hpart p (.tail _ hp)) (hB _)
      · simp

/-- A property that depends on the next character alone. -/
theorem along_of_next (h : ∀ u ∈ x, ∀ b a, Q b (u :: a)) : Along Q b x a := by
  induction x generalizing b with
  | nil => trivial
  | cons u x ih => exact ⟨h u (.head _) _ _, ih fun v hv => h v (.tail _ hv)⟩

/-- What holds along a part holds at each of its places. -/
theorem along_iff_forall :
    Along Q b x a ↔ ∀ y u z, x = y ++ u :: z → Q (y.reverse ++ b) (u :: (z ++ a)) := by
  induction x generalizing b with
  | nil => simp
  | cons v x ih =>
    rw [along_cons, ih]
    constructor
    · rintro ⟨hhere, hlater⟩ y u z hx
      cases y with
      | nil =>
        obtain ⟨rfl, rfl⟩ := List.cons.inj hx
        exact hhere
      | cons w y =>
        obtain ⟨rfl, rfl⟩ := List.cons.inj hx
        simpa using hlater y u z rfl
    · intro h
      refine ⟨h [] v x rfl, fun y u z hx => ?_⟩
      simpa using h (v :: y) u z (by rw [hx]; rfl)

/-- A property of the first place, and of each place between neighbours in a part. -/
theorem along_of_isChain {R : Char → Char → Prop} (hx : x.IsChain R)
    (hstart : x ≠ [] → Q b (x ++ a)) (hinside : ∀ b a u v, R u v → Q (u :: b) (v :: a)) :
    Along Q b x a := by
  induction x generalizing b with
  | nil => trivial
  | cons u x ih =>
    refine ⟨hstart (by simp), ih hx.tail fun hne => ?_⟩
    obtain ⟨v, y, rfl⟩ := List.exists_cons_of_ne_nil hne
    exact hinside _ _ u v (List.isChain_cons_cons.mp hx).1

end

/-! ## Searching -/

theorem findFrom_eq_none_iff {parts : List Pattern} {b s : List Char} :
    findFrom parts b s = none ↔ ∀ x a, s = x ++ a → matchAt parts ⟨x.reverse ++ b, a⟩ = none := by
  induction s generalizing b with
  | nil =>
    constructor
    · intro h x a hs
      obtain ⟨rfl, rfl⟩ := by simpa using hs.symm
      exact h
    · intro h
      exact h [] [] rfl
  | cons u s ih =>
    have hstep : findFrom parts b (u :: s) = none ↔
        matchAt parts ⟨b, u :: s⟩ = none ∧ findFrom parts (u :: b) s = none := by
      rw [findFrom]
      cases matchAt parts ⟨b, u :: s⟩ <;> simp
    rw [hstep, ih]
    constructor
    · rintro ⟨hhere, hlater⟩ x a hs
      cases x with
      | nil =>
        obtain rfl : u :: s = a := by simpa using hs
        exact hhere
      | cons v x =>
        obtain ⟨rfl, rfl⟩ := by simpa using hs
        simpa using hlater x a rfl
    · intro h
      refine ⟨h [] (u :: s) rfl, fun x a hs => ?_⟩
      simpa using h (u :: x) a (by simp [hs])

/-- A match at the first place is the leftmost one. -/
theorem findFrom_of_matchAt {parts : List Pattern} {b s : List Char} {m : Match}
    (h : matchAt parts ⟨b, s⟩ = some m) : findFrom parts b s = some m := by
  cases s with
  | nil => exact h
  | cons u s => simp [findFrom, h]

/-- The leftmost match is the match at some place. -/
theorem exists_matchAt_of_findFrom {parts : List Pattern} {b s : List Char} {m : Match}
    (h : findFrom parts b s = some m) :
    ∃ x a, s = x ++ a ∧ matchAt parts ⟨x.reverse ++ b, a⟩ = some m := by
  induction s generalizing b with
  | nil => exact ⟨[], [], rfl, h⟩
  | cons u s ih =>
    rw [findFrom] at h
    cases hmatch : matchAt parts ⟨b, u :: s⟩ with
    | some m' =>
      obtain rfl : m' = m := by simpa [hmatch] using h
      exact ⟨[], _, rfl, hmatch⟩
    | none =>
      obtain ⟨x, a, rfl, hlater⟩ := ih (by simpa [hmatch] using h)
      exact ⟨u :: x, a, rfl, by simpa using hlater⟩

/-- A shape does not occur exactly when it fits at no place. -/
theorem occurs_eq_false_iff {p : Pattern} {s : List Char} :
    occurs p s = false ↔ ∀ b a, s = b.reverse ++ a → ∀ d, d ∉ p.ends ⟨b, a⟩ := by
  have hnone : occurs p s = false ↔ findFrom [p] [] s = none := by
    simp [occurs, findFirst]
  rw [hnone, findFrom_eq_none_iff]
  simp only [matchAt_singleton, Option.map_eq_none_iff, Pattern.first_eq_none_iff,
    List.eq_nil_iff_forall_not_mem]
  constructor
  · intro h b a hs
    simpa using h b.reverse a hs
  · intro h x a hs
    exact h _ a (by simpa using hs)

theorem occurs_eq_true_iff {p : Pattern} {s : List Char} :
    occurs p s = true ↔ ∃ b a d, s = b.reverse ++ a ∧ d ∈ p.ends ⟨b, a⟩ := by
  simp only [← Bool.not_eq_false, occurs_eq_false_iff, not_forall, not_not, exists_prop,
    exists_and_left]

/-- What a scan from a place finds is the match at that place or a later one. -/
theorem exists_matchAt_of_hit_mem {parts : List Pattern} {n : Nat} {c : Cursor} {m : Match}
    (h : Segment.hit m ∈ scanFrom parts n c) :
    ∃ x d, c.Reads x d ∧ matchAt parts d = some m := by
  induction n generalizing c with
  | zero => simp [scanFrom] at h
  | succ n ih =>
    obtain ⟨b, a⟩ := c
    cases a with
    | nil => simp [scanFrom] at h
    | cons u a =>
      -- past the next character, when no match is used here
      have hpast : Segment.hit m ∈ scanFrom parts n ⟨u :: b, a⟩ →
          ∃ x d, Cursor.Reads ⟨b, u :: a⟩ x d ∧ matchAt parts d = some m := by
        intro hm
        obtain ⟨x, d, hreads, hmatch⟩ := ih hm
        exact ⟨u :: x, d, (Cursor.reads_mk b [u] a).trans hreads, hmatch⟩
      rw [scanFrom] at h
      cases hmatch : matchAt parts ⟨b, u :: a⟩ with
      | none => exact hpast (by simpa [hmatch] using h)
      | some m' =>
        simp only [hmatch] at h
        split_ifs at h with hless
        · rcases List.mem_cons.mp h with heq | hm
          · obtain rfl := Segment.hit.inj heq
            exact ⟨[], _, .refl _, hmatch⟩
          · obtain ⟨x, d, hreads, hlater⟩ := ih hm
            exact ⟨_, d, (reads_of_matchAt hmatch).2.trans hreads, hlater⟩
        · exact hpast (by simpa using h)

/-- What is found is the match at some place of the text. -/
theorem exists_matchAt_of_mem_findAll {parts : List Pattern} {s : List Char} {m : Match}
    (h : m ∈ findAll parts s) :
    ∃ b a, s = b.reverse ++ a ∧ m.start = ⟨b, a⟩ ∧ matchAt parts ⟨b, a⟩ = some m := by
  obtain ⟨segment, hmem, hsegment⟩ := List.mem_filterMap.mp h
  obtain rfl : segment = .hit m := by
    cases segment with
    | plain c => simp [Segment.match?] at hsegment
    | hit m' => simpa [Segment.match?] using hsegment
  obtain ⟨x, ⟨b, a⟩, hreads, hmatch⟩ := exists_matchAt_of_hit_mem hmem
  refine ⟨b, a, ?_, (reads_of_matchAt hmatch).1, hmatch⟩
  have hb : b = x.reverse := by simpa [Cursor.start] using hreads.behind
  simpa [Cursor.start, hb] using hreads.ahead

/-! ## The scan relation -/

/-- The segments into which a single pattern cuts the text after a place. -/
inductive Scans (p : Pattern) : Cursor → List Segment → Prop
  | done (b : List Char) : Scans p ⟨b, []⟩ []
  /-- A character where no match starts. -/
  | plain {b a : List Char} {u : Char} {segments : List Segment}
    (hno : p.ends ⟨b, u :: a⟩ = []) (rest : Scans p ⟨u :: b, a⟩ segments) :
    Scans p ⟨b, u :: a⟩ (.plain u :: segments)
  /-- A match that covers some text. -/
  | hit {b x a : List Char} {segments : List Segment} (hx : x ≠ [])
    (hfirst : p.first ⟨b, x ++ a⟩ = some ⟨x.reverse ++ b, a⟩)
    (rest : Scans p ⟨x.reverse ++ b, a⟩ segments) :
    Scans p ⟨b, x ++ a⟩ (.hit ⟨⟨b, x ++ a⟩, [x], ⟨x.reverse ++ b, a⟩⟩ :: segments)

namespace Scans
variable {p : Pattern} {c : Cursor} {b x a : List Char} {segments : List Segment}

theorem scanFrom_eq (h : Scans p c segments) {n : Nat} (hn : c.ahead.length ≤ n) :
    scanFrom [p] n c = segments := by
  induction h generalizing n with
  | done b => cases n <;> simp [scanFrom]
  | plain hno _ ih =>
    cases n with
    | zero => simp at hn
    | succ n =>
      rw [scanFrom]
      simp [matchAt_singleton_eq_none hno, ih (Nat.le_of_succ_le_succ hn)]
  | @hit b x a segments hx hfirst _ ih =>
    obtain ⟨u, y, rfl⟩ := List.exists_cons_of_ne_nil hx
    cases n with
    | zero => simp at hn
    | succ n =>
      have hrest : a.length ≤ n := by
        simp only [List.length_append, List.length_cons] at hn
        omega
      have hmatch : matchAt [p] ⟨b, u :: (y ++ a)⟩ =
          some ⟨⟨b, u :: y ++ a⟩, [u :: y], ⟨(u :: y).reverse ++ b, a⟩⟩ := by
        have hupto := (Cursor.reads_mk b (u :: y) a).upTo
        rw [matchAt_singleton, ← List.cons_append, hfirst, Option.map_some, hupto]
      rw [List.cons_append, scanFrom]
      have hless : a.length < (u :: (y ++ a)).length := by
        simp only [List.length_append, List.length_cons]
        omega
      simp only [hmatch]
      rw [if_pos hless, ih hrest]
      rfl

theorem scan_eq {s : List Char} (h : Scans p (.start s) segments) : scan [p] s = segments :=
  h.scanFrom_eq (Nat.le_refl _)

end Scans

/-- A scan cuts the part `x`, with `b` before it and `a` after it, into some segments, and then goes
on behind it. -/
def Cuts (p : Pattern) (b x a : List Char) (segments : List Segment) : Prop :=
  ∀ rest, Scans p ⟨x.reverse ++ b, a⟩ rest → Scans p ⟨b, x ++ a⟩ (segments ++ rest)

namespace Cuts
variable {p : Pattern} {b x y a : List Char} {segments later : List Segment}

theorem nil : Cuts p b [] a [] := fun _ hrest => hrest

theorem append (hx : Cuts p b x (y ++ a) segments) (hy : Cuts p (x.reverse ++ b) y a later) :
    Cuts p b (x ++ y) a (segments ++ later) := by
  intro rest hrest
  rw [List.append_assoc, List.append_assoc]
  exact hx _ (hy _ (by simpa using hrest))

/-- Where no match starts at any place of a part, the part is kept. -/
theorem keep (hno : Along (fun b a => p.ends ⟨b, a⟩ = []) b x a) :
    Cuts p b x a (x.map .plain) := by
  induction x generalizing b with
  | nil => exact nil
  | cons u x ih =>
    intro rest hrest
    exact .plain hno.1 (ih hno.2 rest (by simpa using hrest))

/-- A part that is a match. -/
theorem hit (hx : x ≠ []) (hfirst : p.first ⟨b, x ++ a⟩ = some ⟨x.reverse ++ b, a⟩) :
    Cuts p b x a [.hit ⟨⟨b, x ++ a⟩, [x], ⟨x.reverse ++ b, a⟩⟩] :=
  fun _ hrest => .hit hx hfirst hrest

/-- The scan of a whole text. -/
theorem scans {s : List Char} (h : Cuts p [] s [] segments) : Scans p (.start s) segments := by
  have hall := h [] (.done _)
  rwa [List.append_nil, List.append_nil] at hall

end Cuts

/-- Where a pattern fits nowhere, there is nothing to replace. -/
theorem replaceAll_eq_self {p : Pattern} {s : List Char} (replacement : Match → List Char)
    (hno : Along (fun b a => p.ends ⟨b, a⟩ = []) [] s []) :
    replaceAll [p] replacement s = s := by
  rw [replaceAll, (Cuts.keep hno).scans.scan_eq, List.flatMap_map]
  simp

end AskMetrics.Text
