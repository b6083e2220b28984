import AskMetrics.Json.Decode
import AskMetrics.Proofs.Json.Numbers
import AskMetrics.Proofs.Json.Strings

/-!
# Values read back

Whatever a value is, its text is JSON. It is read as the same value, but for three things: numbers
with a point are rounded when they are read, numbers that are not finite have become null, and so
has what could not be read in the first place.
-/
namespace AskMetrics.Json

/-- What the text of a number is read as. -/
def Number.reread (n : Number) : Json :=
  match readNumber n.render.toList with
  | some (m, _) => .number m
  | none => .null

theorem Number.reread_cases (n : Number) : n.reread = null ∨ ∃ m, n.reread = number m := by
  unfold Number.reread
  split
  · exact .inr ⟨_, rfl⟩
  · exact .inl rfl

mutual

/-- What the text of a value is read as. -/
def reread : Json → Json
  | null => null
  | bool b => bool b
  | number n => n.reread
  | string (some s) => str s
  | string none => null
  | array items _ => list (rereadItems items)
  | object members _ => .object (rereadMembers members) true
  | malformed => null

/-- What the items of an array are read as. -/
def rereadItems : List Json → List Json
  | [] => []
  | item :: items => item.reread :: rereadItems items

/-- What the members of an object are read as. -/
def rereadMembers : List (Option String × Json) → List (Option String × Json)
  | [] => []
  | (key, value) :: members => (some (key.getD ""), value.reread) :: rereadMembers members

end

section
variable (s : String) (items : List Json) (members : List (String × Json))

@[simp] theorem reread_str : (str s).reread = str s := rfl

@[simp] theorem reread_list : (list items).reread = list (items.map reread) := by
  have hitems : rereadItems items = items.map reread := by
    induction items with
    | nil => rfl
    | cons item items ih => rw [rereadItems, ih, List.map_cons]
  rw [list, reread, hitems]

@[simp] theorem reread_record :
    (record members).reread = record (members.map fun (key, value) => (key, value.reread)) := by
  have hmembers : rereadMembers (members.map fun (key, value) => (some key, value)) =
      members.map fun (key, value) => (some key, value.reread) := by
    induction members with
    | nil => rfl
    | cons m members ih => rw [List.map_cons, rereadMembers, ih, List.map_cons, Option.getD_some]
  rw [record, reread, hmembers, record, List.map_map]
  rfl

end

/-! ## Texts of lists -/

theorem toList_render_array (items : List Json) (closed : Bool) :
    (array items closed).render.toList = '[' :: ((renderItems items true).toList ++ [']']) := by
  simp [render]

theorem toList_render_object (members : List (Option String × Json)) (closed : Bool) :
    (object members closed).render.toList =
      '\x7b' :: ((renderMembers members true).toList ++ ['\x7d']) := by
  simp [render]

theorem toList_renderItems_nil (isFirst : Bool) : (renderItems [] isFirst).toList = [] := rfl

theorem toList_renderItems_cons (item : Json) (items : List Json) :
    (renderItems (item :: items) true).toList =
      item.render.toList ++ (renderItems items false).toList := by
  simp [renderItems]

theorem toList_renderItems_false (item : Json) (items : List Json) :
    (renderItems (item :: items) false).toList =
      ',' :: (renderItems (item :: items) true).toList := by
  simp [renderItems]

theorem toList_renderMembers_nil (isFirst : Bool) : (renderMembers [] isFirst).toList = [] := rfl

theorem toList_renderMembers_cons (key : Option String) (value : Json)
    (members : List (Option String × Json)) :
    (renderMembers ((key, value) :: members) true).toList =
      (quoted (key.getD "")).toList ++
        ':' :: (value.render.toList ++ (renderMembers members false).toList) := by
  simp [renderMembers]

theorem toList_renderMembers_false (member : Option String × Json)
    (members : List (Option String × Json)) :
    (renderMembers (member :: members) false).toList =
      ',' :: (renderMembers (member :: members) true).toList := by
  simp [renderMembers]

section
variable {fuel : Nat} {c : Char} {cs rest : List Char}

/-! ## Texts by their first character -/

theorem skipSpace_cons (hc : isSpace c = false) : skipSpace (c :: cs) = c :: cs := by
  rw [skipSpace, List.dropWhile_cons_of_neg (by simp [hc])]

theorem readValue_null : readValue (fuel + 1) ("null".toList ++ rest) = (.null, some rest) := by
  rfl

theorem readValue_bool (b : Bool) :
    readValue (fuel + 1) ((bool b).render.toList ++ rest) = (bool b, some rest) := by
  cases b <;> rfl

theorem readValue_quoted (s : String) :
    readValue (fuel + 1) ((quoted s).toList ++ rest) = (str s, some rest) := by
  rw [toList_quoted, List.cons_append, List.append_assoc, readValue, skipSpace_cons (by decide)]
  simp [readString_flatMap_escape, str]

/-- A character that a number can begin with. -/
def StartsNumber (c : Char) : Prop := c.isDigit = true ∨ c = '-'

theorem StartsNumber.ne {u : Char} (hc : StartsNumber c) (hu : u.isDigit = false)
    (hminus : u ≠ '-') : c ≠ u := by
  rintro rfl
  rcases hc with hc | hc
  · simp [hu] at hc
  · exact hminus hc

theorem StartsNumber.isSpace (hc : StartsNumber c) : isSpace c = false := by
  simp [Json.isSpace, hc.ne (u := ' ') (by decide) (by decide),
    hc.ne (u := '\n') (by decide) (by decide), hc.ne (u := '\t') (by decide) (by decide),
    hc.ne (u := '\r') (by decide) (by decide)]

theorem readValue_of_readNumber (hc : StartsNumber c) {n : Number}
    (h : readNumber (c :: cs) = some (n, rest)) :
    readValue (fuel + 1) (c :: cs) = (.number n, some rest) := by
  rw [readValue, skipSpace_cons hc.isSpace]
  simp [hc.ne (u := '[') (by decide) (by decide), hc.ne (u := '\x7b') (by decide) (by decide),
    hc.ne (u := '"') (by decide) (by decide), hc.ne (u := 'n') (by decide) (by decide),
    hc.ne (u := 't') (by decide) (by decide), hc.ne (u := 'f') (by decide) (by decide), h]

theorem Number.exists_render_cons (n : Number) (h : n.render ≠ "null") :
    ∃ c cs, n.render.toList = c :: cs ∧ StartsNumber c ∧ ReadsWhole readNumber (c :: cs) := by
  obtain ⟨s, hs, htext | htext⟩ := n.render_cases.resolve_left h
  · obtain ⟨c, cs, rfl, hc⟩ := hs.first
    exact ⟨c, cs, htext, .inl hc, hs.readsWhole_number⟩
  · exact ⟨'-', s, htext, .inr rfl, hs.readsWhole_number_minus⟩

theorem readValue_number (n : Number) (hrest : EndsNumber rest) :
    readValue (fuel + 1) (n.render.toList ++ rest) = (n.reread, some rest) := by
  by_cases hnull : n.render = "null"
  · have hreread : n.reread = null := by
      rw [Number.reread, hnull]
      rfl
    rw [hreread, hnull]
    exact readValue_null
  · obtain ⟨c, cs, htext, hc, m, hm⟩ := n.exists_render_cons hnull
    have halone := hm [] (by simp [EndsNumber])
    rw [List.append_nil] at halone
    rw [Number.reread, htext, halone]
    exact readValue_of_readNumber hc (hm rest hrest)

/-- The text of a value begins with a character that is no blank and closes no array. -/
theorem exists_render_cons (v : Json) :
    ∃ c cs, v.render.toList = c :: cs ∧ isSpace c = false ∧ c ≠ ']' := by
  have hnull : ∃ c cs, "null".toList = c :: cs ∧ isSpace c = false ∧ c ≠ ']' :=
    ⟨_, _, rfl, by decide, by decide⟩
  match v with
  | null | string none | malformed => exact hnull
  | bool true | bool false => exact ⟨_, _, rfl, by decide, by decide⟩
  | number n =>
    by_cases h : n.render = "null"
    · rw [render, h]
      exact hnull
    · obtain ⟨c, cs, htext, hc, -⟩ := n.exists_render_cons h
      exact ⟨c, cs, htext, hc.isSpace, hc.ne (by decide) (by decide)⟩
  | string (some s) => exact ⟨_, _, toList_quoted s, by decide, by decide⟩
  | array items _ => exact ⟨_, _, toList_render_array .., by decide, by decide⟩
  | object members _ => exact ⟨_, _, toList_render_object .., by decide, by decide⟩

/-! ## Whole values -/

theorem endsNumber_cons (hc : c.isDigit = false ∧ c ≠ '.' ∧ c ≠ 'e' ∧ c ≠ 'E') :
    EndsNumber (c :: cs) := by
  simpa [EndsNumber] using hc

/-- The text of a value is read as a whole, whatever comes after it. Two steps for each character
are enough. -/
def ReadsThrough (v : Json) : Prop :=
  ∀ fuel rest, 2 * v.render.toList.length ≤ fuel → EndsNumber rest →
    readValue fuel (v.render.toList ++ rest) = (v.reread, some rest)

/-- There is fuel for the first step. -/
theorem ReadsThrough.of_succ {v : Json}
    (h : ∀ fuel rest, 2 * v.render.toList.length ≤ fuel + 1 → EndsNumber rest →
      readValue (fuel + 1) (v.render.toList ++ rest) = (v.reread, some rest)) : ReadsThrough v := by
  intro fuel rest hfuel hrest
  obtain ⟨c, cs, htext, -⟩ := exists_render_cons v
  obtain ⟨fuel, rfl⟩ : ∃ n, fuel = n + 1 :=
    ⟨fuel - 1, by rw [htext, List.length_cons] at hfuel; omega⟩
  exact h fuel rest hfuel hrest

theorem readItems_render (rest : List Char) (fuel : Nat) {items : List Json}
    (h : ∀ v ∈ items, ReadsThrough v) (hne : items ≠ [])
    (hfuel : 2 * (renderItems items true).toList.length + 1 ≤ fuel) :
    readItems fuel ((renderItems items true).toList ++ ']' :: rest) =
      (rereadItems items, some rest) := by
  induction items generalizing fuel with
  | nil => exact absurd rfl hne
  | cons item items ih =>
    obtain ⟨fuel, rfl⟩ : ∃ n, fuel = n + 1 := ⟨fuel - 1, by omega⟩
    obtain ⟨hitem, hitems⟩ := List.forall_mem_cons.mp h
    rw [toList_renderItems_cons, List.length_append] at hfuel
    rw [toList_renderItems_cons, List.append_assoc, readItems]
    cases items with
    | nil =>
      rw [toList_renderItems_nil, List.nil_append,
        hitem fuel _ (by omega) (endsNumber_cons (by decide))]
      rfl
    | cons item' items =>
      rw [toList_renderItems_false, List.length_cons] at hfuel
      have hmore := ih fuel hitems (by simp) (by omega)
      rw [toList_renderItems_false, List.cons_append,
        hitem fuel _ (by omega) (endsNumber_cons (by decide))]
      simp only [skipSpace_cons (c := ',') (by decide), hmore]
      rfl

theorem readMembers_render (rest : List Char) (fuel : Nat)
    {members : List (Option String × Json)} (h : ∀ m ∈ members, ReadsThrough m.2)
    (hne : members ≠ [])
    (hfuel : 2 * (renderMembers members true).toList.length + 1 ≤ fuel) :
    readMembers fuel ((renderMembers members true).toList ++ '\x7d' :: rest) =
      (rereadMembers members, some rest) := by
  induction members generalizing fuel with
  | nil => exact absurd rfl hne
  | cons m members ih =>
    obtain ⟨key, value⟩ := m
    obtain ⟨fuel, rfl⟩ : ∃ n, fuel = n + 1 := ⟨fuel - 1, by omega⟩
    obtain ⟨hvalue, hmembers⟩ := List.forall_mem_cons.mp h
    rw [toList_renderMembers_cons, List.length_append, List.length_cons, List.length_append]
      at hfuel
    rw [toList_renderMembers_cons, toList_quoted, List.append_assoc, List.cons_append,
      List.append_assoc, readMembers, skipSpace_cons (by decide)]
    simp only [List.cons_append, List.nil_append, readString_flatMap_escape,
      skipSpace_cons (c := ':') (by decide), List.append_assoc]
    cases members with
    | nil =>
      rw [toList_renderMembers_nil, List.nil_append,
        hvalue fuel _ (by simp only at hfuel ⊢; omega) (endsNumber_cons (by decide))]
      rfl
    | cons m' members =>
      rw [toList_renderMembers_false, List.length_cons] at hfuel
      have hmore := ih fuel hmembers (by simp) (by omega)
      rw [toList_renderMembers_false, List.cons_append,
        hvalue fuel _ (by simp only at hfuel ⊢; omega) (endsNumber_cons (by decide))]
      simp only [skipSpace_cons (c := ',') (by decide), hmore]
      rfl

theorem readsThrough_array {items : List Json} (closed : Bool) (h : ∀ v ∈ items, ReadsThrough v) :
    ReadsThrough (array items closed) := by
  refine .of_succ fun fuel rest hfuel _ => ?_
  rw [toList_render_array, List.length_cons, List.length_append] at hfuel
  rw [toList_render_array, List.cons_append, List.append_assoc, readValue,
    skipSpace_cons (by decide)]
  cases items with
  | nil => rfl
  | cons item items =>
    have hread := readItems_render rest fuel h (by simp) (by omega)
    obtain ⟨c, cs, htext, hc, hclose⟩ := exists_render_cons item
    rw [toList_renderItems_cons, htext, List.cons_append] at hread ⊢
    simp only [List.cons_append, List.nil_append, skipSpace_cons hc] at hread ⊢
    split
    · simp_all
    · simp only [hread]
      rfl

theorem readsThrough_object {members : List (Option String × Json)} (closed : Bool)
    (h : ∀ m ∈ members, ReadsThrough m.2) : ReadsThrough (object members closed) := by
  refine .of_succ fun fuel rest hfuel _ => ?_
  rw [toList_render_object, List.length_cons, List.length_append] at hfuel
  rw [toList_render_object, List.cons_append, List.append_assoc, readValue,
    skipSpace_cons (by decide)]
  cases members with
  | nil => rfl
  | cons m members =>
    have hread := readMembers_render rest fuel h (by simp) (by omega)
    rw [toList_renderMembers_cons, toList_quoted, List.cons_append] at hread ⊢
    simp only [List.cons_append, List.nil_append, skipSpace_cons (c := '"') (by decide)] at hread ⊢
    split
    · simp_all
    · simp only [hread]
      rfl

end

mutual

/-- The text of every value is read as a whole. -/
theorem readsThrough : ∀ v : Json, ReadsThrough v
  | null | string none | malformed => .of_succ fun _ _ _ _ => readValue_null
  | bool b => .of_succ fun _ _ _ _ => readValue_bool b
  | number n => .of_succ fun _ _ _ hrest => readValue_number n hrest
  | string (some s) => .of_succ fun _ _ _ _ => readValue_quoted s
  | array items closed => readsThrough_array closed (readsThrough_of_mem_items items)
  | object members closed => readsThrough_object closed (readsThrough_of_mem_members members)

theorem readsThrough_of_mem_items : ∀ items : List Json, ∀ v ∈ items, ReadsThrough v
  | [] => by simp
  | v :: items => List.forall_mem_cons.mpr ⟨readsThrough v, readsThrough_of_mem_items items⟩

theorem readsThrough_of_mem_members :
    ∀ members : List (Option String × Json), ∀ m ∈ members, ReadsThrough m.2
  | [] => by simp
  | (_, v) :: members =>
    List.forall_mem_cons.mpr ⟨readsThrough v, readsThrough_of_mem_members members⟩

end

/-! ## Whole texts -/

theorem ofText_render (v : Json) : ofText v.render.toList = (v.reread, some []) := by
  have hread := readsThrough v (2 * v.render.toList.length + 2) [] (by omega) (by simp [EndsNumber])
  rwa [List.append_nil] at hread

/-- Decoding the text of a value is decoding what the text is read as. -/
theorem parse_render {α : Type} (decode : Json → Decoded α) (v : Json) :
    parse decode v.render = decode v.reread := by
  simp only [parse, ofText_render]
  cases hdecode : decode v.reread <;> rfl

end AskMetrics.Json
