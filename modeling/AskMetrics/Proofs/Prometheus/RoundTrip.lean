import AskMetrics.Proofs.Json.Decoded
import AskMetrics.Prometheus.Data

/-!
# Data written and read back

A time is written with the fewest digits that tell it from other times, and reading it back can
round more than once. What is not a time comes back as it was: the texts of types and values, the
label sets, the number of series and samples. A result at an instant carries no mark of its kind,
but a vector is a list of objects and a single sample begins with a number, so neither is taken for
the other.
-/
namespace AskMetrics.Prometheus

open Json (Decoded asList asDouble asString isStorable_list isStorable_of_asDouble isStorable_record
  isStorable_str parse reread_list reread_record reread_str
  toOption_asList toOption_asList_map toOption_asRecord)

/-! ## Times -/

/-- The text of a time is decoded to the same time. -/
def ReadsBack (t : Double) : Prop :=
  parse asDouble (Json.double t).render = .ok t

instance (t : Double) : Decidable (ReadsBack t) :=
  inferInstanceAs (Decidable (_ = _))

/-- What a time becomes when it is written and read. -/
def reread? (t : Double) : Option Double :=
  (parse asDouble (Json.double t).render).toOption

theorem reread?_eq_some_iff {t : Double} : reread? t = some t ↔ ReadsBack t :=
  Json.eq_ok_iff.symm

/-- A time that is not finite is written as null. -/
theorem ReadsBack.isFinite {t : Double} (h : ReadsBack t) : t.isFinite = true := by
  by_contra hfinite
  have htext : (Json.double t).render = "null" := by
    simp [Json.double, Json.render, Json.Number.render, hfinite]
  have hnull : parse asDouble "null" = .error .shapeFault := by decide
  simp [ReadsBack, htext, hnull] at h

theorem reread?_eq (t : Double) : reread? t = (asDouble (Json.double t).reread).toOption := by
  rw [reread?, Json.parse_render]

/-! ## Samples -/

namespace Sample

def reread? (s : Sample) : Option Sample :=
  (Prometheus.reread? s.timestamp).map fun t => ⟨t, s.text⟩

theorem toOption_ofJson (s : Sample) : (ofJson s.toJson.reread).toOption = s.reread? := by
  rw [reread?, reread?_eq, toJson, reread_list, List.map_cons, List.map_singleton, reread_str]
  cases h : asDouble (Json.double s.timestamp).reread <;>
    simp [ofJson, Json.list, fields, Json.fillItems, Json.RecordField.of, asString, Json.str,
      Json.required, h]

theorem reread?_eq_some_iff {s : Sample} : s.reread? = some s ↔ ReadsBack s.timestamp := by
  obtain ⟨t, text⟩ := s
  rw [← Prometheus.reread?_eq_some_iff]
  simp [reread?]

/-- What begins with a record is no sample. -/
theorem toOption_ofJson_of_record (members : List (String × Json)) (items : List Json) :
    (ofJson (Json.list (Json.record members :: items))).toOption = none := rfl

theorem isStorable_of_isSome {s : Sample} (h : s.reread?.isSome = true) (depth : Nat) :
    s.toJson.reread.isStorable (depth + 1) = true := by
  rw [reread?, Option.isSome_map, reread?_eq] at h
  obtain ⟨t, ht⟩ := Option.isSome_iff_exists.mp h
  rw [toJson, reread_list]
  refine isStorable_list ?_
  simp only [List.map_cons, List.map_nil, List.forall_mem_cons]
  exact ⟨isStorable_of_asDouble (Json.eq_ok_iff.mpr ht) depth, isStorable_str depth s.text,
    by simp⟩

end Sample

/-! ## Labels -/

namespace LabelSet

theorem insertPair_of_forall_lt {name value : String} {pairs : List (String × String)}
    (h : ∀ n ∈ pairs.map (·.1), n < name) :
    insertPair name value pairs = pairs ++ [(name, value)] := by
  induction pairs with
  | nil => rfl
  | cons p pairs ih =>
    obtain ⟨hp, hpairs⟩ := List.forall_mem_cons.mp h
    have hle : ¬ name < p.1 := String.lt_asymm hp
    have hne : name ≠ p.1 := by
      rintro rfl
      exact String.lt_irrefl _ hp
    rw [insertPair, if_neg hle, if_neg hne, ih hpairs, List.cons_append]

/-- Labels in ascending order are added behind those that are there. -/
theorem exists_foldlM_insertMember (done : LabelSet) {todo : List (String × String)}
    (h : ((done.pairs ++ todo).map (·.1)).Pairwise (· < ·)) :
    ∃ all : LabelSet, all.pairs = done.pairs ++ todo ∧
      (todo.map fun (name, value) => (some name, Json.str value)).foldlM insertMember done =
        .ok all := by
  induction todo generalizing done with
  | nil => exact ⟨done, by simp, rfl⟩
  | cons p todo ih =>
    obtain ⟨name, value⟩ := p
    have hbelow : ∀ n ∈ done.pairs.map (·.1), n < name := by
      rw [List.map_append, List.pairwise_append] at h
      exact fun n hn => h.2.2 n hn name (by simp)
    have hpairs : (done.insert name value).pairs = done.pairs ++ [(name, value)] :=
      insertPair_of_forall_lt hbelow
    obtain ⟨all, hall, hfold⟩ := ih (done.insert name value) (by simpa [hpairs] using h)
    exact ⟨all, by simp [hall, hpairs], hfold⟩

theorem reread_toJson (labels : LabelSet) : labels.toJson.reread = labels.toJson := by
  simp [toJson, Function.comp_def]

theorem ofJson_toJson (labels : LabelSet) : ofJson labels.toJson.reread = .ok labels := by
  obtain ⟨all, hall, hfold⟩ := exists_foldlM_insertMember empty labels.sorted
  have hsame : all = labels := by
    cases all
    cases labels
    simpa [empty] using hall
  have htext : labels.toJson =
      .object (labels.pairs.map fun (name, value) => (some name, Json.str value)) true := by
    simp [toJson, Json.record]
  rw [reread_toJson, htext, ofJson, hfold, hsame]
  rfl

theorem isStorable_toJson (labels : LabelSet) (depth : Nat) :
    labels.toJson.isStorable (depth + 1) = true := by
  refine isStorable_record fun m hm => ?_
  obtain ⟨p, -, rfl⟩ := List.mem_map.mp hm
  exact isStorable_str depth p.2

end LabelSet

/-! ## Series -/

namespace RangeSeries

def reread? (s : RangeSeries) : Option RangeSeries :=
  (s.values.mapM Sample.reread?).map fun values => ⟨s.metric, values⟩

theorem toOption_ofJson (s : RangeSeries) : (ofJson s.toJson.reread).toOption = s.reread? := by
  simp only [toJson, reread_record, List.map_cons, List.map_nil, ofJson, Json.toOption_bind, fields]
  rw [toOption_asRecord (by decide) _ _ _ _ _ _ rfl fun _ => rfl, LabelSet.ofJson_toJson,
    toOption_asList_map, reread?]
  simp only [Sample.toOption_ofJson]
  cases s.values.mapM Sample.reread? <;> rfl

theorem reread?_eq_some_iff {s : RangeSeries} :
    s.reread? = some s ↔ ∀ x ∈ s.values, ReadsBack x.timestamp := by
  obtain ⟨metric, values⟩ := s
  simp [reread?, Json.mapM_eq_some_self_iff, Sample.reread?_eq_some_iff]

end RangeSeries

namespace RangeData

/-- The times of all samples. -/
def times (d : RangeData) : List Double :=
  d.result.flatMap fun s => s.values.map (·.timestamp)

def reread? (d : RangeData) : Option RangeData :=
  (d.result.mapM RangeSeries.reread?).map fun result => ⟨d.resultType, result⟩

theorem toOption_ofJson (d : RangeData) : (ofJson d.toJson.reread).toOption = d.reread? := by
  simp only [toJson, reread_record, List.map_cons, List.map_nil, ofJson, Json.toOption_bind, fields]
  rw [toOption_asRecord (by decide) _ _ _ _ _ _ rfl fun _ => rfl, reread_str, toOption_asList_map,
    reread?]
  simp only [RangeSeries.toOption_ofJson]
  cases d.result.mapM RangeSeries.reread? <;> rfl

theorem reread?_eq_some_iff {d : RangeData} : d.reread? = some d ↔ ∀ t ∈ d.times, ReadsBack t := by
  obtain ⟨resultType, result⟩ := d
  simp only [reread?, Option.map_eq_some_iff, mk.injEq, true_and, exists_eq_right,
    Json.mapM_eq_some_self_iff, RangeSeries.reread?_eq_some_iff, times, List.mem_flatMap,
    List.mem_map, forall_exists_index, and_imp]
  exact ⟨fun h _ s hs x hx ht => ht ▸ h s hs x hx, fun h s hs x hx => h _ s hs x hx rfl⟩

end RangeData

namespace InstantSample

def reread? (s : InstantSample) : Option InstantSample :=
  s.value.reread?.map fun value => ⟨s.metric, value⟩

theorem toOption_ofJson (s : InstantSample) : (ofJson s.toJson.reread).toOption = s.reread? := by
  simp only [toJson, reread_record, List.map_cons, List.map_nil, ofJson, Json.toOption_bind, fields]
  rw [toOption_asRecord (by decide) _ _ _ _ _ _ rfl fun _ => rfl, LabelSet.ofJson_toJson,
    Sample.toOption_ofJson, reread?]
  cases s.value.reread? <;> rfl

theorem reread?_eq_some_iff {s : InstantSample} :
    s.reread? = some s ↔ ReadsBack s.value.timestamp := by
  obtain ⟨metric, value⟩ := s
  simp [reread?, Sample.reread?_eq_some_iff]

theorem isStorable_of_isSome {s : InstantSample} (h : s.reread?.isSome = true) (depth : Nat) :
    s.toJson.reread.isStorable (depth + 2) = true := by
  rw [reread?, Option.isSome_map] at h
  rw [toJson, reread_record]
  refine isStorable_record ?_
  simp only [List.map_cons, List.map_nil, List.forall_mem_cons, LabelSet.reread_toJson]
  exact ⟨s.metric.isStorable_toJson depth, Sample.isStorable_of_isSome h depth, by simp⟩

/-- A number is no sample with labels. -/
theorem toOption_ofJson_of_double (t : Double) :
    (ofJson (Json.double t).reread).toOption = none := by
  rw [ofJson, Json.toOption_bind, Json.double, Json.reread]
  obtain hnull | ⟨m, hm⟩ := (Json.Number.binary t).reread_cases
  · rw [hnull]
    rfl
  · rw [hm, Json.asRecord, Json.toOption_mismatch]
    · rfl
    all_goals simp

end InstantSample

/-! ## Results at an instant -/

namespace InstantResult

def reread? : InstantResult → Option InstantResult
  | vector samples => (samples.mapM InstantSample.reread?).map vector
  | scalar sample => sample.reread?.map scalar

theorem toOption_ofJson_of_storable {j : Json} (h : j.isStorable (Json.maxNesting - 1) = true) :
    (ofJson j).toOption = ((asList InstantSample.ofJson j).toOption.map vector).or
      ((Sample.ofJson j).toOption.map scalar) := by
  rw [ofJson, h]
  cases asList InstantSample.ofJson j with
  | ok samples => rfl
  | error fault =>
    cases Sample.ofJson j <;> rfl

theorem toOption_ofJson_of_not_storable {j : Json}
    (h : j.isStorable (Json.maxNesting - 1) = false) : (ofJson j).toOption = none := by
  rw [ofJson, h]
  rfl

theorem isStorable_of_isSome {r : InstantResult} (h : r.reread?.isSome = true) :
    r.toJson.reread.isStorable (Json.maxNesting - 1) = true := by
  have hdepth : Json.maxNesting - 1 = 123 + 3 := rfl
  rw [hdepth]
  cases r with
  | vector samples =>
    rw [reread?, Option.isSome_map] at h
    rw [toJson, reread_list]
    refine isStorable_list fun j hj => ?_
    obtain ⟨_, hwritten, rfl⟩ := List.mem_map.mp hj
    obtain ⟨s, hs, rfl⟩ := List.mem_map.mp hwritten
    exact InstantSample.isStorable_of_isSome (Json.isSome_of_mem_of_mapM h hs) 123
  | scalar sample =>
    rw [reread?, Option.isSome_map] at h
    exact Sample.isStorable_of_isSome h 125

theorem toOption_ofJson (r : InstantResult) : (ofJson r.toJson.reread).toOption = r.reread? := by
  by_cases hkept : r.toJson.reread.isStorable (Json.maxNesting - 1) = true
  · rw [toOption_ofJson_of_storable hkept]
    cases r with
    | vector samples =>
      rw [reread?, toJson, toOption_asList_map]
      simp only [InstantSample.toOption_ofJson]
      cases samples with
      | nil => rfl
      | cons s samples =>
        rw [List.map_cons, reread_list, List.map_cons, InstantSample.toJson, reread_record,
          Sample.toOption_ofJson_of_record, Option.map_none, Option.or_none]
    | scalar sample =>
      rw [reread?, toJson, Sample.toOption_ofJson, Sample.toJson, reread_list, toOption_asList,
        List.map_cons, List.mapM_cons, InstantSample.toOption_ofJson_of_double]
      rfl
  · rw [toOption_ofJson_of_not_storable (by simpa using hkept)]
    by_contra hne
    exact hkept (isStorable_of_isSome (Option.isSome_iff_ne_none.mpr (Ne.symm hne)))

/-- Two results of one kind, with as many samples. -/
def SameKind : InstantResult → InstantResult → Prop
  | vector samples, vector samples' => samples.length = samples'.length
  | scalar _, scalar _ => True
  | _, _ => False

theorem sameKind_of_reread?_eq_some {r r' : InstantResult} (h : r.reread? = some r') :
    r.SameKind r' := by
  cases r with
  | vector samples =>
    obtain ⟨samples', hsamples, rfl⟩ := Option.map_eq_some_iff.mp h
    exact (Json.mapM_eq_some_iff.mp hsamples).length_eq
  | scalar sample =>
    obtain ⟨sample', -, rfl⟩ := Option.map_eq_some_iff.mp h
    trivial

theorem reread?_eq_some_iff {r : InstantResult} :
    r.reread? = some r ↔ ∀ s ∈ r.samples, ReadsBack s.timestamp := by
  cases r with
  | vector vs =>
    simp [reread?, samples, Json.mapM_eq_some_self_iff, InstantSample.reread?_eq_some_iff]
  | scalar s => simp [reread?, samples, Sample.reread?_eq_some_iff]

end InstantResult

namespace InstantData

/-- The times of all samples. -/
def times (d : InstantData) : List Double :=
  d.result.samples.map (·.timestamp)

def reread? (d : InstantData) : Option InstantData :=
  d.result.reread?.map fun result => ⟨d.resultType, result⟩

theorem toOption_ofJson (d : InstantData) : (ofJson d.toJson.reread).toOption = d.reread? := by
  simp only [toJson, reread_record, List.map_cons, List.map_nil, ofJson, Json.toOption_bind, fields]
  rw [toOption_asRecord (by decide) _ _ _ _ _ _ rfl fun _ => rfl, reread_str,
    InstantResult.toOption_ofJson, reread?]
  cases d.result.reread? <;> rfl

theorem reread?_eq_some_iff {d : InstantData} :
    d.reread? = some d ↔ ∀ t ∈ d.times, ReadsBack t := by
  obtain ⟨resultType, result⟩ := d
  simp [reread?, times, InstantResult.reread?_eq_some_iff]

end InstantData

/-! ## Whole texts -/

/-- Data that is written and read back is the same data if its times read back, and only then. A
result at an instant stays of its kind even if its times are rounded: a vector with its number of
samples, an empty one included, and a single sample. -/
theorem parse_render_data :
    (∀ d : RangeData, parse RangeData.ofJson d.toJson.render = .ok d ↔ ∀ t ∈ d.times, ReadsBack t) ∧
      (∀ d : InstantData,
        parse InstantData.ofJson d.toJson.render = .ok d ↔ ∀ t ∈ d.times, ReadsBack t) ∧
      ∀ d d' : InstantData, parse InstantData.ofJson d.toJson.render = .ok d' →
        d.result.SameKind d'.result := by
  refine ⟨fun d => ?_, fun d => ?_, fun d d' h => ?_⟩
  · rw [Json.parse_render, Json.eq_ok_iff, RangeData.toOption_ofJson, RangeData.reread?_eq_some_iff]
  · rw [Json.parse_render, Json.eq_ok_iff, InstantData.toOption_ofJson,
      InstantData.reread?_eq_some_iff]
  · rw [Json.parse_render, Json.eq_ok_iff, InstantData.toOption_ofJson] at h
    obtain ⟨result, hresult, rfl⟩ := Option.map_eq_some_iff.mp h
    exact InstantResult.sameKind_of_reread?_eq_some hresult

/-- One sample of a vector, half a second off a whole one. -/
theorem parse_render_halfSecond :
    let d : InstantData :=
      ⟨"vector", .vector [⟨LabelSet.empty.insert "job" "node", ⟨⟨4744917124858773504⟩, "42"⟩⟩]⟩
    parse InstantData.ofJson d.toJson.render = .ok d ∧ d.result.SameKind d.result := by
  intro d
  have hsame : parse InstantData.ofJson d.toJson.render = .ok d :=
    (parse_render_data.2.1 d).mpr (by decide +kernel)
  exact ⟨hsame, parse_render_data.2.2 d d hsame⟩

end AskMetrics.Prometheus
