import AskMetrics.Proofs.Json.Written
import Mathlib.Data.List.Forall2

/-!
# Decoded values

What a decoder gives, without saying what is wrong when it gives nothing. A list is decoded item by
item, a record field by field, and what a decoder takes can also be kept as it is.
-/
namespace AskMetrics.Json

section
variable {α β : Type}

/-! ## Decoders -/

theorem eq_ok_iff {x : Decoded α} {a : α} : x = .ok a ↔ x.toOption = some a := by
  cases x <;> simp [Except.toOption]

@[simp] theorem toOption_ok (a : α) : (.ok a : Decoded α).toOption = some a := rfl

@[simp] theorem toOption_error (fault : Fault) : (.error fault : Decoded α).toOption = none := rfl

theorem toOption_mismatch (j : Json) : (mismatch j : Decoded α).toOption = none := by
  unfold mismatch
  split <;> rfl

@[simp] theorem map_ok (f : α → β) (a : α) : (.ok a : Decoded α).map f = .ok (f a) := rfl

@[simp] theorem map_error (f : α → β) (fault : Fault) :
    (.error fault : Decoded α).map f = .error fault := rfl

@[simp] theorem toOption_map (f : α → β) (x : Decoded α) :
    (x.map f).toOption = x.toOption.map f := by
  cases x <;> rfl

@[simp] theorem toOption_bind (x : Decoded α) (f : α → Decoded β) :
    (x >>= f).toOption = x.toOption.bind fun a => (f a).toOption := by
  cases x <;> rfl

theorem toOption_mapM (f : α → Decoded β) (items : List α) :
    (items.mapM f).toOption = items.mapM fun item => (f item).toOption := by
  induction items with
  | nil => rfl
  | cons item items ih =>
    simp only [List.mapM_cons, toOption_bind, ih]
    rfl

theorem mapM_eq_some_iff {f : α → Option β} {items : List α} {results : List β} :
    items.mapM f = some results ↔ List.Forall₂ (fun a b => f a = some b) items results := by
  induction items generalizing results with
  | nil => simp [eq_comm]
  | cons a items ih =>
    simp only [List.mapM_cons, Option.bind_eq_bind, Option.bind_eq_some_iff, Option.pure_def,
      Option.some.injEq, List.forall₂_cons_left_iff, ih]
    exact ⟨fun ⟨b, hb, rest, hrest, hall⟩ => ⟨b, rest, hb, hrest, hall.symm⟩,
      fun ⟨b, rest, hb, hrest, hall⟩ => ⟨b, hb, rest, hrest, hall.symm⟩⟩

theorem isSome_of_mem_of_mapM {f : α → Option β} {items : List α} {a : α}
    (h : (items.mapM f).isSome = true) (ha : a ∈ items) : (f a).isSome = true := by
  obtain ⟨results, hresults⟩ := Option.isSome_iff_exists.mp h
  obtain ⟨hlength, hall⟩ := List.forall₂_iff_get.mp (mapM_eq_some_iff.mp hresults)
  obtain ⟨i, hi, rfl⟩ := List.getElem_of_mem ha
  exact Option.isSome_of_eq_some (hall i hi (hlength ▸ hi))

/-- A list stays the same when every item does. -/
theorem mapM_eq_some_self_iff {f : α → Option α} {items : List α} :
    items.mapM f = some items ↔ ∀ a ∈ items, f a = some a := by
  rw [mapM_eq_some_iff, List.forall₂_same]

/-- A list is decoded item by item. -/
theorem toOption_asList (item : Json → Decoded β) (items : List Json) :
    (asList item (list items)).toOption = items.mapM fun j => (item j).toOption := by
  rw [← toOption_mapM]
  simp [asList, list]

/-- A list that was written item by item. -/
theorem toOption_asList_map (write : α → Json) (item : Json → Decoded β) (items : List α) :
    (asList item (list (items.map write)).reread).toOption =
      items.mapM fun a => (item (write a).reread).toOption := by
  rw [reread_list, toOption_asList, List.mapM_map, List.mapM_map]
  rfl

end

/-! ## Values that can be kept -/

theorem allStorable_iff {depth : Nat} {items : List Json} :
    allStorable depth items = true ↔ ∀ j ∈ items, isStorable depth j = true := by
  induction items with
  | nil => simp [allStorable]
  | cons j items ih => simp [allStorable, ih]

theorem membersStorable_iff {depth : Nat} {members : List (Option String × Json)} :
    membersStorable depth members = true ↔
      ∀ m ∈ members, m.1.isSome = true ∧ isStorable depth m.2 = true := by
  induction members with
  | nil => simp [membersStorable]
  | cons m members ih => simp [membersStorable, ih]

theorem isStorable_list {depth : Nat} {items : List Json}
    (h : ∀ j ∈ items, isStorable depth j = true) : isStorable (depth + 1) (list items) = true := by
  rw [list, isStorable, Bool.and_true]
  exact allStorable_iff.mpr h

theorem isStorable_record {depth : Nat} {members : List (String × Json)}
    (h : ∀ m ∈ members, isStorable depth m.2 = true) :
    isStorable (depth + 1) (record members) = true := by
  rw [record, isStorable, Bool.and_true, membersStorable_iff]
  simp only [List.mem_map, forall_exists_index, and_imp]
  rintro _ m hm rfl
  exact ⟨rfl, h m hm⟩

theorem isStorable_str (depth : Nat) (s : String) : isStorable depth (str s) = true := by
  cases depth <;> rfl

/-- A number that can be decoded can be kept. -/
theorem isStorable_of_asDouble {j : Json} {d : Double} (h : asDouble j = .ok d) (depth : Nat) :
    isStorable depth j = true := by
  unfold asDouble at h
  split at h
  · simp [isStorable]
  · simp [isStorable]
  · simp [isStorable]
  · simpa [toOption_mismatch] using eq_ok_iff.mp h

/-! ## Records -/

/-- A record of two fields that was written as an object with both in their order. -/
theorem toOption_asRecord {σ α β : Type} {key key' : String} {hasDefault hasDefault' : Bool}
    (hkey : key ≠ key') (get : σ → Option α) (set : σ → α → σ) (value : Json → Decoded α)
    (get' : σ → Option β) (set' : σ → β → σ) (value' : Json → Decoded β) {draft : σ}
    (hget : get draft = none) (hget' : ∀ a, get' (set draft a) = none) (j j' : Json) :
    (asRecord [.of key hasDefault get set value, .of key' hasDefault' get' set' value'] draft
      (record [(key, j), (key', j')])).toOption =
      (value j).toOption.bind fun a => (value' j').toOption.map (set' (set draft a)) := by
  simp only [asRecord, record, List.map_cons, List.map_nil, List.foldlM_cons, List.foldlM_nil,
    fillMember, RecordField.of, List.find?_cons, beq_self_eq_true, hget, Option.isSome_none,
    beq_eq_false_iff_ne.mpr hkey]
  cases value j with
  | error fault => rfl
  | ok a => simp [hget']

end AskMetrics.Json
