import AskMetrics.Proofs.Distinct
import AskMetrics.Proofs.Text.Blank
import Mathlib.Data.List.Lattice

/-!
# Which models are candidates

The identifiers of models come as they were written down: with blanks around them, blank, or more
than once. The candidates are those that are left when blanks are trimmed and repetitions passed
over, and the place of the first occurrence decides about the rank. In a text the identifiers stand
between commas. A list that was read from a text has none in its identifiers, so it can be written
down and read again.
-/
namespace AskMetrics

/-! ## Parts of a text -/

namespace Text

theorem pieces_eq_splitOn (separator : Char) (s : List Char) :
    pieces (· == separator) s = s.splitOn separator := by
  induction s with
  | nil => rfl
  | cons u s ih =>
    rw [pieces, ih, List.splitOn_eq_splitOnP, List.splitOn_eq_splitOnP,
      List.splitOnP_cons_eq_if_modifyHead]
    split_ifs with hu
    · rfl
    · obtain ⟨first, rest, hparts⟩ :=
        List.exists_cons_of_ne_nil (List.splitOnP_ne_nil (· == separator) s)
      rw [hparts]
      rfl

end Text

/-! ## First occurrences -/

section
variable {α : Type} [BEq α] [LawfulBEq α]

/-- The first occurrences of some members of a list, in the order of their places in it. -/
theorem pairwise_idxOf_eraseDups (p : α → Bool) (xs : List α) :
    (xs.filter p).eraseDups.Pairwise fun x y => xs.idxOf x < xs.idxOf y := by
  induction xs generalizing p with
  | nil => simp
  | cons x xs ih =>
    -- behind `x` places count from one, and what is kept there is other than `x`
    have hlater : ∀ q : α → Bool, (∀ y, q y = true → y ≠ x) →
        (xs.filter q).eraseDups.Pairwise fun y z => (x :: xs).idxOf y < (x :: xs).idxOf z := by
      intro q hq
      have hne : ∀ y ∈ (xs.filter q).eraseDups, (x :: xs).idxOf y = xs.idxOf y + 1 := by
        intro y hy
        rw [List.mem_eraseDups, List.mem_filter] at hy
        exact List.idxOf_cons_ne xs (hq y hy.2).symm
      refine (ih q).imp_of_mem fun {y z} hy hz hlt => ?_
      rw [hne y hy, hne z hz]
      omega
    by_cases hx : p x = true
    · rw [List.filter_cons_of_pos hx, List.eraseDups_cons, List.filter_filter]
      refine List.pairwise_cons.mpr ⟨fun y hy => ?_, hlater _ fun y hy => ?_⟩
      · rw [List.mem_eraseDups, List.mem_filter] at hy
        have hne : y ≠ x := by
          rintro rfl
          simp at hy
        rw [List.idxOf_cons_self, List.idxOf_cons_ne xs hne.symm]
        omega
      · rintro rfl
        simp at hy
    · rw [List.filter_cons_of_neg hx]
      refine hlater p fun y hy => ?_
      rintro rfl
      exact hx hy

theorem eraseDups_eq_self {xs : List α} (h : xs.Nodup) : xs.eraseDups = xs := by
  induction xs with
  | nil => rfl
  | cons x xs ih =>
    obtain ⟨hx, hxs⟩ := List.nodup_cons.mp h
    have hkept : (xs.filter fun y => !y == x) = xs := by
      refine List.filter_eq_self.mpr fun y hy => ?_
      have hne : y ≠ x := ne_of_mem_of_not_mem hy hx
      simpa using hne
    rw [List.eraseDups_cons, hkept, ih hxs]

end

namespace Generation

open Text

namespace CandidateList

/-! ## Lists of candidates -/

/-- A list of the candidates among some identifiers: those that are not blank, trimmed, in the order
of their first occurrences, each once, and with its place in the list as its rank. -/
structure Lists (ids : List String) (list : CandidateList) : Prop where
  mem_iff : ∀ id, id ∈ list.ids ↔
    ∃ given ∈ ids, isBlankString given = false ∧ trimString given = id
  nodup : list.ids.Nodup
  ordered : list.ids.Pairwise fun id later =>
    (ids.map trimString).idxOf id < (ids.map trimString).idxOf later
  ranked : ∀ rank (c : Candidate),
    list.toList[rank]? = some c ↔ c.rank = rank ∧ list.ids[rank]? = some c.id
  size_eq : list.size = list.toList.length
  get?_eq : ∀ rank, list.get? rank = list.toList[rank]?

/-- What stands between the commas of a text. -/
structure Fields (fields : List String) (csv : String) : Prop where
  ne_nil : fields ≠ []
  no_comma : ∀ field ∈ fields, ',' ∉ field.toList
  text : ",".intercalate fields = csv

section
variable {ids fields : List String} {list : CandidateList} {csv : String}

theorem eq_of_ids_eq {list' : CandidateList} (h : list.ids = list'.ids) : list = list' := by
  cases list
  cases list'
  exact congrArg mk h

theorem getElem?_toList (list : CandidateList) (rank : Nat) :
    list.toList[rank]? = list.ids[rank]?.map fun id => ⟨id, rank⟩ := by
  simp [toList, List.getElem?_zipIdx, Function.comp_def]

theorem lists_ofIds (ids : List String) : Lists ids (ofIds ids) where
  mem_iff id := by
    rw [ids_ofIds, List.mem_eraseDups, List.mem_filter, List.mem_map, decide_eq_true_eq]
    constructor
    · rintro ⟨⟨given, hgiven, rfl⟩, hne⟩
      exact ⟨given, hgiven, by simpa using mt trimString_eq_empty_iff.mpr hne, rfl⟩
    · rintro ⟨given, hgiven, hblank, rfl⟩
      refine ⟨⟨given, hgiven, rfl⟩, fun hempty => ?_⟩
      simp [trimString_eq_empty_iff.mp hempty] at hblank
  nodup := nodup_ids_ofIds ids
  ordered := by
    rw [ids_ofIds]
    exact pairwise_idxOf_eraseDups _ _
  ranked rank c := by
    obtain ⟨id, rank'⟩ := c
    rw [getElem?_toList, Option.map_eq_some_iff]
    constructor
    · rintro ⟨id', hid, heq⟩
      obtain ⟨rfl, rfl⟩ := Candidate.mk.inj heq
      exact ⟨rfl, hid⟩
    · rintro ⟨rfl, hid⟩
      exact ⟨id, hid, rfl⟩
  size_eq := by simp [size, toList]
  get?_eq rank := (getElem?_toList _ rank).symm

/-- What is asked of the candidates leaves no choice. -/
theorem lists_iff : Lists ids list ↔ list = ofIds ids := by
  constructor
  · intro h
    have h' := lists_ofIds ids
    have hperm : list.ids.Perm (ofIds ids).ids :=
      (List.perm_ext_iff_of_nodup h.nodup h'.nodup).mpr fun id => by rw [h.mem_iff, h'.mem_iff]
    refine eq_of_ids_eq (hperm.eq_of_pairwise ?_ h.ordered h'.ordered)
    exact fun _ _ _ _ hbefore hbehind => absurd hbefore (Nat.lt_asymm hbehind)
  · rintro rfl
    exact lists_ofIds ids

/-- Building a list from its own identifiers gives the list back. -/
theorem ofIds_ids (h : Lists ids list) : ofIds list.ids = list := by
  have hid : ∀ id ∈ list.ids, trimString id = id ∧ id ≠ "" := by
    intro id hmem
    obtain ⟨given, -, hblank, rfl⟩ := (h.mem_iff id).mp hmem
    refine ⟨trimString_trimString given, fun hempty => ?_⟩
    simp [trimString_eq_empty_iff.mp hempty] at hblank
  have htrim : list.ids.map trimString = list.ids := by
    conv_rhs => rw [← List.map_id list.ids]
    exact List.map_congr_left fun id hmem => (hid id hmem).1
  have hkept : list.ids.filter (· ≠ "") = list.ids :=
    List.filter_eq_self.mpr fun id hmem => decide_eq_true (hid id hmem).2
  refine eq_of_ids_eq ?_
  rw [ids_ofIds, htrim, hkept, eraseDups_eq_self h.nodup]

/-! ## Lists in texts -/

theorem exists_fields (csv : String) : ∃ fields, Fields fields csv := by
  refine ⟨(csv.toList.splitOn ',').map .ofList, ?_, ?_, ?_⟩
  · simpa [← pieces_eq_splitOn] using pieces_ne_nil csv.toList
  · intro field hfield
    obtain ⟨part, hpart, rfl⟩ := List.mem_map.mp hfield
    rw [← pieces_eq_splitOn] at hpart
    rw [String.toList_ofList]
    exact fun hmem => absurd (not_separates_of_mem_pieces hpart ',' hmem) (by decide)
  · rw [← String.toList_inj, String.toList_intercalate, List.map_map]
    simp [Function.comp_def, List.intercalate_splitOn]

/-- The fields of a text are the parts that it is read from. -/
theorem Fields.pieces_eq (h : Fields fields csv) :
    (pieces (· == ',') csv.toList).map .ofList = fields := by
  have hparts : ∀ part ∈ fields.map String.toList, ',' ∉ part := by
    simpa using h.no_comma
  have hcomma : ",".toList = [','] := rfl
  rw [← h.text, String.toList_intercalate, pieces_eq_splitOn, hcomma,
    List.splitOn_intercalate ',' hparts (by simpa using h.ne_nil)]
  simp [List.map_map, Function.comp_def]

theorem Fields.parse?_eq (h : Fields fields csv) :
    parse? csv = if (ofIds fields).ids.isEmpty then none else some (ofIds fields) := by
  rw [parse?, h.pieces_eq]

theorem Fields.parse?_eq_none_iff (h : Fields fields csv) :
    parse? csv = none ↔ ∀ field ∈ fields, isBlankString field = true := by
  rw [h.parse?_eq, ite_eq_left_iff]
  simp only [reduceCtorEq, imp_false, not_not, List.isEmpty_iff, List.eq_nil_iff_forall_not_mem,
    (lists_ofIds fields).mem_iff]
  constructor
  · intro hnone field hfield
    by_contra hblank
    exact hnone _ ⟨field, hfield, by simpa using hblank, rfl⟩
  · rintro hall id ⟨field, hfield, hblank, -⟩
    simp [hall field hfield] at hblank

/-- The identifiers of a list that was read are the fields of the text that they make up. -/
theorem Fields.of_lists (h : Fields fields csv) (hlist : Lists fields list)
    (hne : list.ids ≠ []) : Fields list.ids (",".intercalate list.ids) where
  ne_nil := hne
  no_comma id hid := by
    obtain ⟨field, hfield, -, rfl⟩ := (hlist.mem_iff id).mp hid
    rw [trimString, String.toList_ofList]
    exact fun hmem => h.no_comma field hfield ((infix_trim field.toList).subset hmem)
  text := rfl

/-- **The candidates**: for all identifiers the list that is built is the one that has just those
that are not blank, trimmed, at their first occurrences and in their order, no two the same and each
with its place as its rank. For every text no list is read exactly if all that stands between its
commas is blank; otherwise it is the list of what stands there, and the text of its identifiers with
commas between them is read as that list again. -/
theorem lists_and_parses (ids : List String) (csv : String) :
    (∀ list, Lists ids list ↔ list = ofIds ids) ∧
      ∃ fields, Fields fields csv ∧
        (parse? csv = none ↔ ∀ field ∈ fields, isBlankString field = true) ∧
        ∀ list, parse? csv = some list →
          Lists fields list ∧ parse? (",".intercalate list.ids) = some list := by
  obtain ⟨fields, hfields⟩ := exists_fields csv
  refine ⟨fun list => lists_iff, fields, hfields, hfields.parse?_eq_none_iff, fun list hparse => ?_⟩
  rw [hfields.parse?_eq] at hparse
  split_ifs at hparse with hempty
  obtain rfl := Option.some.inj hparse
  have hlist := lists_ofIds fields
  have hagain := hfields.of_lists hlist (by simpa using hempty)
  refine ⟨hlist, ?_⟩
  rw [hagain.parse?_eq, ofIds_ids hlist, if_neg hempty]

/-- A text with blanks, a blank field and a repetition. -/
theorem lists_and_parses_repeated :
    parse? " a , b,, a\t,c " = some ⟨["a", "b", "c"]⟩ ∧
      parse? (",".intercalate ["a", "b", "c"]) = some ⟨["a", "b", "c"]⟩ := by
  have hparse : parse? " a , b,, a\t,c " = some ⟨["a", "b", "c"]⟩ := by decide +kernel
  obtain ⟨-, fields, -, -, hagain⟩ := lists_and_parses [] " a , b,, a\t,c "
  exact ⟨hparse, (hagain _ hparse).2⟩

end

end CandidateList

end Generation

end AskMetrics
