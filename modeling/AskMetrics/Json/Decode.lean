import AskMetrics.Json.Reader

/-!
# Decoding JSON values

A decoder turns a value into a domain type or says what kind of fault it met first in the order of
the text: the text is no JSON, or the value has the wrong shape.

A record is written as an object or as an array of its fields in order. In an object, unknown keys
are skipped if their values are JSON at all, and a known key may come once. In an array, fields at
the end may be missing if they have a default. A record is decoded into a draft that each field
fills in turn, so that faults come in the order of the text.
-/
namespace AskMetrics.Json

/-- What is wrong with a text or value. -/
inductive Fault where
  /-- The text is no JSON, or holds a number or string that cannot be represented. -/
  | syntaxFault
  /-- The value is not of the expected shape. -/
  | shapeFault
  deriving DecidableEq, Repr

/-- What a decoder gives. -/
abbrev Decoded (α : Type) := Except Fault α

/-- The fault of a value that is of another kind than expected. A leaf that cannot be read is a
fault of the text. -/
def mismatch {α : Type} : Json → Decoded α
  | malformed => .error .syntaxFault
  | string none => .error .syntaxFault
  | number .tooLarge => .error .syntaxFault
  | _ => .error .shapeFault

/-! ## Skipped values -/

mutual

/-- Whether the text of a value is JSON throughout. Numbers and strings that cannot be represented
are no hindrance. -/
def isComplete : Json → Bool
  | malformed => false
  | array items closed => allComplete items && closed
  | object members closed => membersComplete members && closed
  | _ => true

/-- Whether all items are complete. -/
def allComplete : List Json → Bool
  | [] => true
  | item :: items => isComplete item && allComplete items

/-- Whether all members are complete. -/
def membersComplete : List (Option String × Json) → Bool
  | [] => true
  | (_, value) :: members => isComplete value && membersComplete members

end

mutual

/-- Whether a value can be kept as it is: it is complete, all its numbers and strings can be
represented, and it is nested at most `depth` deep. -/
def isStorable : Nat → Json → Bool
  | _, malformed => false
  | _, string none => false
  | _, number .tooLarge => false
  | 0, array _ _ => false
  | 0, object _ _ => false
  | depth + 1, array items closed => allStorable depth items && closed
  | depth + 1, object members closed => membersStorable depth members && closed
  | _, _ => true

/-- Whether all items can be kept. -/
def allStorable : Nat → List Json → Bool
  | _, [] => true
  | depth, item :: items => isStorable depth item && allStorable depth items

/-- Whether all members can be kept, keys included. -/
def membersStorable : Nat → List (Option String × Json) → Bool
  | _, [] => true
  | depth, (key, value) :: members =>
    key.isSome && isStorable depth value && membersStorable depth members

end

/-- How deep arrays and objects may be nested in a text. -/
def maxNesting : Nat := 127

/-! ## Leaves -/

/-- A string. -/
def asString : Json → Decoded String
  | string (some s) => .ok s
  | j => mismatch j

/-- A natural number up to a bound. -/
def asNat (most : Nat) : Json → Decoded Nat
  | number (.natural n) => if n ≤ most then .ok n else .error .shapeFault
  | j => mismatch j

/-- A whole number of 64 bits. -/
def asInt : Json → Decoded Int
  | number (.natural n) => if n < twoTo 63 then .ok n else .error .shapeFault
  | number (.negative n) => .ok (-n)
  | j => mismatch j

/-- A number, rounded if it is a large whole one. -/
def asDouble : Json → Decoded Double
  | number (.natural n) => .ok (.ofNat n)
  | number (.negative n) => .ok (Double.ofNat n).neg
  | number (.binary d) => .ok d
  | j => mismatch j

/-! ## Lists and missing values -/

/-- A list of values of one type. -/
def asList {α : Type} (item : Json → Decoded α) : Json → Decoded (List α)
  | array items closed => do
    let values ← items.mapM item
    if closed then .ok values else .error .syntaxFault
  | j => mismatch j

/-- A value, or nothing for null. -/
def asOption {α : Type} (value : Json → Decoded α) : Json → Decoded (Option α)
  | null => .ok none
  | j => (value j).map some

/-! ## Records -/

/-- A field of a record that is decoded into a draft of type `σ`. -/
structure RecordField (σ : Type) where
  /-- The key of the field in an object. -/
  key : String
  /-- Whether an array may end before the field. -/
  hasDefault : Bool
  /-- Whether the field has been filled. -/
  isFilled : σ → Bool
  /-- Fills the field. -/
  fill : σ → Json → Decoded σ

/-- The field of a draft that is empty or holds a value. -/
def RecordField.of {σ α : Type} (key : String) (hasDefault : Bool) (get : σ → Option α)
    (set : σ → α → σ) (value : Json → Decoded α) : RecordField σ where
  key := key
  hasDefault := hasDefault
  isFilled draft := (get draft).isSome
  fill draft j := (value j).map (set draft)

/-- Fills a draft from one member. -/
def fillMember {σ : Type} (fields : List (RecordField σ)) (draft : σ) :
    Option String × Json → Decoded σ
  | (none, _) => .error .syntaxFault
  | (some key, value) =>
    match fields.find? (·.key == key) with
    | none => if value.isComplete then .ok draft else .error .syntaxFault
    | some field => if field.isFilled draft then .error .shapeFault else field.fill draft value

/-- Fills a draft from items in the order of the fields. -/
def fillItems {σ : Type} : List (RecordField σ) → σ → List Json → Bool → Decoded σ
  | [], draft, [], closed => if closed then .ok draft else .error .syntaxFault
  | [], _, _ :: _, _ => .error .syntaxFault
  | field :: fields, draft, [], closed =>
    if !closed then .error .syntaxFault
    else if (field :: fields).all (·.hasDefault) then .ok draft
    else .error .shapeFault
  | field :: fields, draft, item :: items, closed => do
    fillItems fields (← field.fill draft item) items closed

/-- A draft filled from an object or an array. -/
def asRecord {σ : Type} (fields : List (RecordField σ)) (draft : σ) : Json → Decoded σ
  | object members closed => do
    let filled ← members.foldlM (fillMember fields) draft
    if closed then .ok filled else .error .syntaxFault
  | array items closed => fillItems fields draft items closed
  | j => mismatch j

/-- A field without which a record is not complete. -/
def required {α : Type} : Option α → Decoded α
  | some a => .ok a
  | none => .error .shapeFault

/-- The value of the last member with a key, in an object. -/
def member? (key : String) : Json → Option Json
  | object members _ =>
    (members.reverse.find? fun (k, _) => k == some key).map (·.2)
  | _ => none

/-- The text of a string. -/
def string? : Json → Option String
  | string s => s
  | _ => none

/-! ## Whole texts -/

/-- Decodes the value at the start of a text, whatever follows it. -/
def parseStart {α : Type} (decode : Json → Decoded α) (s : String) : Decoded α :=
  decode (ofText s.toList).1

/-- Decodes a text that holds one value and nothing else but blanks. -/
def parse {α : Type} (decode : Json → Decoded α) (s : String) : Decoded α := do
  let (value, rest) := ofText s.toList
  let result ← decode value
  match rest with
  | some rest => if (skipSpace rest).isEmpty then .ok result else .error .syntaxFault
  | none => .error .syntaxFault

/-- The value that a whole text is, if it is one. -/
def ofText? (s : String) : Option Json :=
  match ofText s.toList with
  | (value, some rest) =>
    if (skipSpace rest).isEmpty && value.isStorable maxNesting then some value else none
  | _ => none

end AskMetrics.Json
