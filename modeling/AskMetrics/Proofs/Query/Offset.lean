import AskMetrics.Proofs.Query.Partner
import AskMetrics.Proofs.Text.Scan
import AskMetrics.Proofs.Text.Word

/-!
# The check on groupings over bytes

A text is stored as UTF-8 bytes, and the check on groupings computes with offsets into them: it goes
back over blanks, looks for the partner of a bracket, goes back over a word and cuts the word out.
Here is that computation byte by byte. It has no outcome when a byte is read or a text is cut beyond
the end, or when an offset it has come to lies inside a character. It always has an outcome, and
that is what the check over characters says.
-/
namespace AskMetrics.Query

open AskMetrics.Text

/-- The bytes of a text. -/
def bytesOf (s : List Char) : List UInt8 := s.flatMap String.utf8EncodeChar

/-- The number of bytes of a text. -/
def byteSize : List Char → Nat
  | [] => 0
  | c :: s => c.utf8Size + byteSize s

/-! ## Bytes of a character -/

section
variable {c : Char} {byte : UInt8}

theorem utf8Size_of_toNat_lt (h : c.toNat < 128) : c.utf8Size = 1 := by
  rw [Char.utf8Size_eq_one_iff, UInt32.le_iff_toNat_le]
  exact Nat.le_of_lt_succ h

/-- An ASCII character is one byte, and no other character has a byte of that range. -/
theorem eq_or_le_of_mem_utf8EncodeChar (h : byte ∈ String.utf8EncodeChar c) :
    (c.toNat < 128 ∧ byte = c.toUInt8) ∨ (128 ≤ c.toNat ∧ 128 ≤ byte.toNat) := by
  by_cases hc : c.toNat < 128
  · rw [String.utf8EncodeChar_eq_singleton (utf8Size_of_toNat_lt hc)] at h
    exact .inl ⟨hc, List.mem_singleton.mp h⟩
  · right
    refine ⟨Nat.le_of_not_lt hc, ?_⟩
    have hwide : ¬ c.val.toNat ≤ 127 := by
      change ¬ c.toNat ≤ 127
      omega
    simp only [String.utf8EncodeChar, hwide, if_false] at h
    split_ifs at h <;> simp only [List.mem_cons, List.not_mem_nil, or_false] at h
    · rcases h with rfl | rfl <;> rw [UInt8.toNat_ofNat'] <;> omega
    · rcases h with rfl | rfl | rfl <;> rw [UInt8.toNat_ofNat'] <;> omega
    · rcases h with rfl | rfl | rfl | rfl <;> rw [UInt8.toNat_ofNat'] <;> omega

end

/-- `P` decides the class `p` of ASCII characters by their bytes. -/
structure ByteClass (P : UInt8 → Bool) (p : Char → Bool) : Prop where
  ascii : ∀ c : Char, c.toNat < 128 → P c.toUInt8 = p c
  wide : ∀ byte : UInt8, 128 ≤ byte.toNat → P byte = false
  narrow : ∀ c, p c = true → c.toNat < 128

/-- A class of ASCII characters can be decided by any byte of a character. -/
theorem ByteClass.eq_of_mem {P : UInt8 → Bool} {p : Char → Bool} (h : ByteClass P p) {c : Char}
    {byte : UInt8} (hmem : byte ∈ String.utf8EncodeChar c) : P byte = p c := by
  rcases eq_or_le_of_mem_utf8EncodeChar hmem with ⟨hc, rfl⟩ | ⟨hc, hbyte⟩
  · exact h.ascii c hc
  · have hp : p c = false := by
      by_contra hp
      have := h.narrow c (by simpa using hp)
      omega
    rw [h.wide byte hbyte, hp]

/-- A class is decided when it is for each code below 128, and holds of nothing above. -/
theorem byteClass_of_table {P : UInt8 → Bool} {p : Char → Bool}
    (htable : ∀ n < 128, P (UInt8.ofNat n) = p (Char.ofNat n))
    (hwide : ∀ byte : UInt8, 128 ≤ byte.toNat → P byte = false)
    (hnarrow : ∀ c, p c = true → c.toNat < 128) : ByteClass P p where
  ascii c hc := by
    have hbyte : c.toUInt8 = UInt8.ofNat c.toNat := rfl
    rw [hbyte, htable c.toNat hc, Char.ofNat_toNat]
  wide := hwide
  narrow := hnarrow

/-! ## Sizes -/

section
variable (x y s : List Char)

@[simp] theorem byteSize_nil : byteSize [] = 0 := rfl

@[simp] theorem byteSize_cons (c : Char) : byteSize (c :: s) = c.utf8Size + byteSize s := rfl

@[simp] theorem byteSize_append : byteSize (x ++ y) = byteSize x + byteSize y := by
  induction x with
  | nil => simp
  | cons c x ih => simp [ih, Nat.add_assoc]

@[simp] theorem byteSize_reverse : byteSize s.reverse = byteSize s := by
  induction s with
  | nil => rfl
  | cons c s ih => simp [ih, Nat.add_comm]

theorem bytesOf_append : bytesOf (x ++ y) = bytesOf x ++ bytesOf y := List.flatMap_append

theorem bytesOf_cons (c : Char) : bytesOf (c :: s) = String.utf8EncodeChar c ++ bytesOf s := rfl

theorem length_bytesOf : (bytesOf s).length = byteSize s := by
  induction s with
  | nil => rfl
  | cons c s ih => rw [bytesOf_cons, List.length_append, String.length_utf8EncodeChar, ih,
      byteSize_cons]

end

/-- A byte between the offsets of two neighbouring places is one of the character there. -/
theorem exists_byte {b a : List Char} {c : Char} {i : Nat} (hi : byteSize b ≤ i)
    (hlt : i < byteSize (c :: b)) :
    ∃ byte ∈ String.utf8EncodeChar c, (bytesOf ((c :: b).reverse ++ a))[i]? = some byte := by
  have hsize : i - byteSize b < (String.utf8EncodeChar c).length := by
    rw [byteSize_cons] at hlt
    rw [String.length_utf8EncodeChar]
    omega
  refine ⟨(String.utf8EncodeChar c)[i - byteSize b], List.getElem_mem hsize, ?_⟩
  have hsplit : bytesOf ((c :: b).reverse ++ a) =
      bytesOf b.reverse ++ (String.utf8EncodeChar c ++ bytesOf a) := by
    rw [List.reverse_cons, List.append_assoc, bytesOf_append]
    rfl
  have hlength : (bytesOf b.reverse).length = byteSize b := by
    rw [length_bytesOf, byteSize_reverse]
  rw [hsplit, List.getElem?_append_right (by omega), hlength, List.getElem?_append_left hsize,
    List.getElem?_eq_getElem hsize]

namespace Offset

/-! ## The computation -/

/-- The parts of a text before and after an offset. There are none when the offset is beyond the end
or inside a character. -/
def cut? : List Char → Nat → Option (List Char × List Char)
  | s, 0 => some ([], s)
  | [], _ + 1 => none
  | c :: s, n + 1 =>
    if c.utf8Size ≤ n + 1 then
      (cut? s (n + 1 - c.utf8Size)).map fun (x, y) => (c :: x, y)
    else none

/-- An offset that must lie between two characters. -/
def checked (s : List Char) (i : Nat) : Option Nat := (cut? s i).map fun _ => i

/-- The text between two offsets. -/
def slice? (s : List Char) (i j : Nat) : Option (List Char) := do
  let (x, _) ← cut? s j
  let (_, y) ← cut? x i
  return y

/-- Space, tab, line feed, form feed and carriage return. -/
def isBlankByte (byte : UInt8) : Bool :=
  byte == 32 || byte == 9 || byte == 10 || byte == 12 || byte == 13

/-- ASCII letters, digits and the underscore. -/
def isNameByte (byte : UInt8) : Bool :=
  (48 ≤ byte && byte ≤ 57) || (65 ≤ byte && byte ≤ 90) || (97 ≤ byte && byte ≤ 122) || byte == 95

/-- Goes back over the bytes of a class. -/
def skipBack (skips : UInt8 → Bool) (bytes : List UInt8) : Nat → Option Nat
  | 0 => some 0
  | i + 1 => do
    let byte ← bytes[i]?
    if skips byte then skipBack skips bytes i else return i + 1

/-- Goes back to the round bracket that opens what is closed, with `depth` brackets waiting. -/
def opening? (bytes : List UInt8) : Nat → Int → Option (Option Nat)
  | 0, _ => some none
  | i + 1, depth => do
    let byte ← bytes[i]?
    if byte = 41 then opening? bytes i (depth + 1)
    else if byte = 40 then
      if depth - 1 = 0 then return some i else opening? bytes i (depth - 1)
    else opening? bytes i depth

/-- The number of open curly brackets behind a byte. -/
def deepen (depth : Int) (byte : UInt8) : Int :=
  if byte = 123 then depth + 1 else if byte = 125 then depth - 1 else depth

/-- How many more curly brackets open than close before an offset. -/
def braceDepth (bytes : List UInt8) (i : Nat) : Option Int :=
  if i ≤ bytes.length then
    some ((bytes.take i).foldl deepen 0)
  else none

/-- Where the word before the round brackets ends that close at an offset. -/
def beforeCall? (s : List Char) (i : Nat) : Option (Option Nat) := do
  match ← opening? (bytesOf s) i 0 with
  | none => return none
  | some opening =>
    let opening ← checked s opening
    let wordEnd ← skipBack isBlankByte (bytesOf s) opening >>= checked s
    return some wordEnd

/-- Where the word ends that a grouping keyword can belong to: before the keyword, or before the
brackets that close there. -/
def wordEnd? (s : List Char) (i : Nat) : Option (Option Nat) := do
  let near ← skipBack isBlankByte (bytesOf s) i >>= checked s
  if near = 0 then return none
  let last ← (bytesOf s)[near - 1]?
  if last = 41 then beforeCall? s near else return some near

/-- Whether the word that ends at an offset is an aggregation operator. -/
def endsOperator (s : List Char) (i : Nat) : Option Bool := do
  let wordStart ← skipBack isNameByte (bytesOf s) i >>= checked s
  let word ← slice? s wordStart i
  return aggregationOperators.any fun operator => operator.toList == lowerAscii word

/-- Whether a grouping keyword at an offset belongs to an aggregation. -/
def belongsToAggregation (s : List Char) (i : Nat) : Option Bool := do
  match ← wordEnd? s i with
  | none => return false
  | some wordEnd => endsOperator s wordEnd

/-- Whether some grouping keyword outside curly brackets does not belong to an aggregation. -/
def hasDetachedGrouping (s : List Char) : Option Bool :=
  (findAll [groupingKeyword] s).anyM fun m => do
    let i ← checked s (byteSize m.start.behind)
    let depth ← braceDepth (bytesOf s) i
    if 0 < depth then return false
    let belongs ← belongsToAggregation s i
    return !belongs

/-! ## Cutting -/

section
variable (x y z b a : List Char)

theorem cut?_zero (s : List Char) : cut? s 0 = some ([], s) := by
  cases s <;> rfl

/-- A text can be cut where two parts of it meet. -/
theorem cut?_append : cut? (x ++ y) (byteSize x) = some (x, y) := by
  induction x with
  | nil => exact cut?_zero y
  | cons c x ih =>
    have hpos := c.utf8Size_pos
    obtain ⟨n, hn⟩ : ∃ n, c.utf8Size + byteSize x = n + 1 := ⟨c.utf8Size + byteSize x - 1, by omega⟩
    have hrest : n + 1 - c.utf8Size = byteSize x := by omega
    rw [byteSize_cons, hn, List.cons_append, cut?, if_pos (by omega), hrest, ih]
    rfl

theorem checked_eq : checked (b.reverse ++ a) (byteSize b) = some (byteSize b) := by
  have hcut := cut?_append b.reverse a
  rw [byteSize_reverse] at hcut
  rw [checked, hcut]
  rfl

theorem slice?_eq : slice? (x ++ y ++ z) (byteSize x) (byteSize (x ++ y)) = some y := by
  rw [slice?, cut?_append]
  simp only [Option.bind_eq_bind, Option.bind_some]
  rw [cut?_append]
  rfl

end

/-! ## Scans -/

theorem byteClass_isBlankByte : ByteClass isBlankByte isAsciiBlank := by
  refine byteClass_of_table (by decide) (fun byte hbyte => ?_) fun c hc => ?_
  · simp only [isBlankByte, Bool.or_eq_false_iff, beq_eq_false_iff_ne, ne_eq, ← UInt8.toNat_inj]
    refine ⟨⟨⟨⟨?_, ?_⟩, ?_⟩, ?_⟩, ?_⟩ <;> intro heq <;> simp at heq <;> omega
  · simp only [isAsciiBlank, Bool.or_eq_true, beq_iff_eq] at hc
    rcases hc with (((rfl | rfl) | rfl) | rfl) | rfl <;> decide

theorem byteClass_isNameByte : ByteClass isNameByte isNameChar := by
  refine byteClass_of_table (by decide) (fun byte hbyte => ?_) fun c hc => ?_
  · simp only [isNameByte, Bool.or_eq_false_iff, Bool.and_eq_false_iff, decide_eq_false_iff_not,
      UInt8.le_iff_toNat_le, beq_eq_false_iff_ne, ne_eq, ← UInt8.toNat_inj]
    simp
    omega
  · rw [isNameChar_iff] at hc
    omega

theorem toNat_toUInt8 {u : Char} (hu : u.toNat < 128) : u.toUInt8.toNat = u.toNat := by
  have hbyte : u.toUInt8 = UInt8.ofNat u.toNat := rfl
  rw [hbyte, UInt8.toNat_ofNat']
  omega

/-- A single ASCII character is decided by its code. -/
theorem byteClass_eq {u : Char} (hu : u.toNat < 128) : ByteClass (· == u.toUInt8) (· == u) where
  ascii c hc := by
    rw [Bool.eq_iff_iff, beq_iff_eq, beq_iff_eq, ← UInt8.toNat_inj, toNat_toUInt8 hc,
      toNat_toUInt8 hu, Char.toNat_inj]
  wide byte hbyte := by
    rw [beq_eq_false_iff_ne, ne_eq, ← UInt8.toNat_inj, toNat_toUInt8 hu]
    omega
  narrow c hc := by
    obtain rfl : c = u := by simpa using hc
    exact hu

section
variable {P : UInt8 → Bool} {p : Char → Bool}

/-- Going back over the bytes of a class of characters ends where going back over the characters
does. -/
theorem skipBack_eq (hP : ByteClass P p) (b a : List Char) :
    skipBack P (bytesOf (b.reverse ++ a)) (byteSize b) = some (byteSize (b.dropWhile p)) := by
  induction b generalizing a with
  | nil => rfl
  | cons c b ih =>
    have hpos := c.utf8Size_pos
    obtain ⟨i, hi⟩ : ∃ i, byteSize (c :: b) = i + 1 := ⟨byteSize (c :: b) - 1, by simp; omega⟩
    have hsize := byteSize_cons b c
    obtain ⟨byte, hmem, hget⟩ := exists_byte (b := b) (a := a) (c := c) (i := i) (by omega) (by omega)
    rw [hi, skipBack, hget]
    simp only [Option.bind_eq_bind, Option.bind_some, hP.eq_of_mem hmem]
    by_cases hc : p c = true
    · have hone := utf8Size_of_toNat_lt (hP.narrow c hc)
      obtain rfl : i = byteSize b := by omega
      rw [if_pos hc, List.dropWhile_cons_of_pos hc, ← ih (c :: a)]
      simp
    · rw [if_neg hc, List.dropWhile_cons_of_neg hc, hi]
      rfl

/-- A byte of an ASCII character, or of another one. -/
theorem eq_code_iff {u c : Char} (hu : u.toNat < 128) {byte : UInt8}
    (hmem : byte ∈ String.utf8EncodeChar c) : byte = u.toUInt8 ↔ c = u := by
  have heq := (byteClass_eq hu).eq_of_mem hmem
  rwa [Bool.eq_iff_iff, beq_iff_eq, beq_iff_eq] at heq

end

/-- Bytes that are no round brackets are passed over. -/
theorem opening?_add {bytes : List UInt8} {i w : Nat} {depth : Int}
    (h : ∀ j, i ≤ j → j < i + w → ∃ byte, bytes[j]? = some byte ∧ byte ≠ 41 ∧ byte ≠ 40) :
    opening? bytes (i + w) depth = opening? bytes i depth := by
  induction w with
  | zero => rfl
  | succ w ih =>
    obtain ⟨byte, hget, hclose, hopen⟩ := h (i + w) (by omega) (by omega)
    have hrest := ih fun j hj hlt => h j hj (by omega)
    rw [← Nat.add_assoc, opening?, hget]
    simp only [Option.bind_eq_bind, Option.bind_some, if_neg hclose, if_neg hopen]
    exact hrest

/-- The scan for the bracket that opens comes to the same place over bytes and over characters. -/
theorem opening?_eq (b a : List Char) (n : Nat) :
    opening? (bytesOf (b.reverse ++ a)) (byteSize b) (n + 1) =
      some ((beforeOpening (n + 1) b).map byteSize) := by
  induction b generalizing a n with
  | nil => rfl
  | cons c b ih =>
    have hrest : ∀ m : Nat, opening? (bytesOf ((c :: b).reverse ++ a)) (byteSize b) (m + 1) =
        some ((beforeOpening (m + 1) b).map byteSize) := by
      intro m
      rw [← ih (c :: a)]
      simp
    have hbyte : ∀ j, byteSize b ≤ j → j < byteSize b + c.utf8Size →
        ∃ byte ∈ String.utf8EncodeChar c, (bytesOf ((c :: b).reverse ++ a))[j]? = some byte := by
      intro j hj hlt
      exact exists_byte hj (by rw [byteSize_cons]; omega)
    generalize bytesOf ((c :: b).reverse ++ a) = bytes at hrest hbyte
    have hclose (byte : UInt8) (hmem : byte ∈ String.utf8EncodeChar c) : byte = 41 ↔ c = ')' :=
      eq_code_iff (u := ')') (by decide) hmem
    have hopen (byte : UInt8) (hmem : byte ∈ String.utf8EncodeChar c) : byte = 40 ↔ c = '(' :=
      eq_code_iff (u := '(') (by decide) hmem
    rw [byteSize_cons, Nat.add_comm]
    by_cases hc : c = ')' ∨ c = '('
    · -- a bracket is one byte
      have hone : c.utf8Size = 1 := by
        rcases hc with rfl | rfl <;> rfl
      obtain ⟨byte, hmem, hget⟩ := hbyte (byteSize b) (by omega) (by omega)
      rw [hone, opening?, hget]
      simp only [Option.bind_eq_bind, Option.bind_some, hclose byte hmem, hopen byte hmem]
      rcases hc with rfl | rfl
      · rw [if_pos rfl, beforeOpening_closing]
        exact_mod_cast hrest (n + 1)
      · rw [if_neg (by decide), if_pos rfl]
        cases n with
        | zero => simp [beforeOpening]
        | succ n =>
          rw [if_neg (by omega), beforeOpening_opening]
          simpa using hrest n
    · obtain ⟨hne, hne'⟩ := not_or.mp hc
      rw [beforeOpening_other hne' hne, ← hrest n]
      refine opening?_add fun j hj hlt => ?_
      obtain ⟨byte, hmem, hget⟩ := hbyte j hj hlt
      exact ⟨byte, hget, mt (hclose byte hmem).mp hne, mt (hopen byte hmem).mp hne'⟩

/-- The scan from a bracket that closes. -/
theorem opening?_closing (b a : List Char) :
    opening? (bytesOf ((')' :: b).reverse ++ a)) (byteSize (')' :: b)) 0 =
      some ((beforeOpening 0 (')' :: b)).map byteSize) := by
  have hsize : byteSize (')' :: b) = byteSize b + 1 := by
    rw [byteSize_cons, Nat.add_comm]
    rfl
  obtain ⟨byte, hmem, hget⟩ := exists_byte (b := b) (a := a) (c := ')') (i := byteSize b)
    (Nat.le_refl _) (by omega)
  have hclose : byte = 41 := (eq_code_iff (u := ')') (by decide) hmem).mpr rfl
  have hrest := opening?_eq b (')' :: a) 0
  rw [hsize, opening?, hget]
  simp only [Option.bind_eq_bind, Option.bind_some, if_pos hclose]
  rw [beforeOpening_closing, ← hrest]
  simp

/-! ## Curly brackets -/

/-- The bytes of a character change the depth once, if it is a curly bracket. -/
theorem foldl_deepen_utf8EncodeChar (c : Char) (depth : Int) :
    (String.utf8EncodeChar c).foldl deepen depth =
      depth + (if c = '\x7b' then 1 else 0) - if c = '\x7d' then 1 else 0 := by
  by_cases hc : c = '\x7b' ∨ c = '\x7d'
  · rcases hc with rfl | rfl
    · change deepen depth 123 = _
      simp [deepen]
    · change deepen depth 125 = _
      simp [deepen]
  · obtain ⟨hopen, hclose⟩ := not_or.mp hc
    have hother : ∀ byte ∈ String.utf8EncodeChar c, ∀ depth, deepen depth byte = depth := by
      intro byte hmem depth
      have hne : byte ≠ 123 := mt (eq_code_iff (u := '\x7b') (by decide) hmem).mp hopen
      have hne' : byte ≠ 125 := mt (eq_code_iff (u := '\x7d') (by decide) hmem).mp hclose
      rw [deepen, if_neg hne, if_neg hne']
    rw [if_neg hopen, if_neg hclose, Int.add_zero, Int.sub_zero]
    generalize String.utf8EncodeChar c = bytes at hother
    induction bytes with
    | nil => rfl
    | cons byte bytes ih =>
      rw [List.foldl_cons, hother byte (.head _)]
      exact ih fun byte' hmem => hother byte' (.tail _ hmem)

/-- Over a text the depth changes by its curly brackets. -/
theorem foldl_deepen_bytesOf (s : List Char) (depth : Int) :
    (bytesOf s).foldl deepen depth = depth + s.count '\x7b' - s.count '\x7d' := by
  induction s generalizing depth with
  | nil => simp [bytesOf]
  | cons c s ih =>
    rw [bytesOf_cons, List.foldl_append, foldl_deepen_utf8EncodeChar, ih]
    simp only [List.count_cons, beq_iff_eq]
    split_ifs <;> push_cast <;> omega

theorem braceDepth_eq (b a : List Char) :
    braceDepth (bytesOf (b.reverse ++ a)) (byteSize b) =
      some ((b.count '\x7b' : Int) - b.count '\x7d') := by
  have hlength : (bytesOf b.reverse).length = byteSize b := by
    rw [length_bytesOf, byteSize_reverse]
  have hfold := foldl_deepen_bytesOf b.reverse 0
  rw [List.count_reverse, List.count_reverse, Int.zero_add] at hfold
  rw [braceDepth, bytesOf_append, List.length_append, hlength, if_pos (by omega),
    List.take_left' hlength, ← hfold]

/-! ## The check -/

section
variable (b a : List Char)

/-- Going back over a class of characters from a place comes to a place. -/
theorem checked_skipBack {P : UInt8 → Bool} {p : Char → Bool} (hP : ByteClass P p) :
    (skipBack P (bytesOf (b.reverse ++ a)) (byteSize b) >>= checked (b.reverse ++ a)) =
      some (byteSize (b.dropWhile p)) := by
  have hsplit : b.reverse ++ a = (b.dropWhile p).reverse ++ ((b.takeWhile p).reverse ++ a) := by
    rw [← List.append_assoc, ← List.reverse_append, List.takeWhile_append_dropWhile]
  have hchecked := checked_eq (b.dropWhile p) ((b.takeWhile p).reverse ++ a)
  rw [← hsplit] at hchecked
  rw [skipBack_eq hP]
  exact hchecked

theorem endsOperator_eq :
    endsOperator (b.reverse ++ a) (byteSize b) =
      some (aggregationOperators.any fun operator =>
        operator.toList == lowerAscii (b.takeWhile isNameChar).reverse) := by
  have hslice := slice?_eq (b.dropWhile isNameChar).reverse (b.takeWhile isNameChar).reverse a
  rw [← List.reverse_append, List.takeWhile_append_dropWhile, byteSize_reverse,
    byteSize_reverse] at hslice
  rw [endsOperator, checked_skipBack b a byteClass_isNameByte]
  simp only [Option.bind_eq_bind, Option.bind_some, hslice]
  rfl

/-- The last byte before a place is one of the last character. -/
theorem exists_last_byte (c : Char) :
    ∃ byte ∈ String.utf8EncodeChar c,
      (bytesOf ((c :: b).reverse ++ a))[byteSize (c :: b) - 1]? = some byte := by
  have hpos := c.utf8Size_pos
  exact exists_byte (by rw [byteSize_cons]; omega) (by rw [byteSize_cons]; omega)

end

/-- Where the word ends that a grouping keyword can belong to, read backwards. -/
def beforeWordEnd? (b : List Char) : Option (List Char) :=
  match b.dropWhile isAsciiBlank with
  | [] => none
  | ')' :: near => (beforeOpening 0 (')' :: near)).map (List.dropWhile isAsciiBlank)
  | near => some near

theorem belongsToAggregation_eq_beforeWordEnd? (b : List Char) :
    Query.belongsToAggregation b =
      match beforeWordEnd? b with
      | none => false
      | some back => aggregationOperators.any fun operator =>
          operator.toList == lowerAscii (back.takeWhile isNameChar).reverse := by
  unfold Query.belongsToAggregation beforeWordEnd?
  cases b.dropWhile isAsciiBlank with
  | nil => rfl
  | cons u near =>
    by_cases hclose : u = ')'
    · subst hclose
      rfl
    · simp [hclose]

theorem exists_append_of_beforeWordEnd? {b back : List Char} (h : beforeWordEnd? b = some back) :
    ∃ x, b = x ++ back := by
  obtain ⟨y, near, rfl, hy, hnear⟩ := exists_run isAsciiBlank b
  rw [beforeWordEnd?, dropWhile_append_eq hy hnear] at h
  cases near with
  | nil => simp at h
  | cons u near =>
    by_cases hclose : u = ')'
    · subst hclose
      obtain ⟨t, ht, rfl⟩ := Option.map_eq_some_iff.mp h
      rw [beforeOpening_closing] at ht
      obtain ⟨x, rfl⟩ := exists_append_of_beforeOpening ht
      refine ⟨y ++ ')' :: (x ++ '(' :: t.takeWhile isAsciiBlank), ?_⟩
      simp [List.takeWhile_append_dropWhile]
    · obtain rfl : u :: near = back := by simpa [hclose] using h
      exact ⟨y, rfl⟩

/-- The word before round brackets ends at the same place over bytes. -/
theorem beforeCall?_eq (b a : List Char) :
    beforeCall? ((')' :: b).reverse ++ a) (byteSize (')' :: b)) =
      some (((beforeOpening 0 (')' :: b)).map (List.dropWhile isAsciiBlank)).map byteSize) := by
  rw [beforeCall?, opening?_closing]
  cases hscan : beforeOpening 0 (')' :: b) with
  | none => rfl
  | some back =>
    rw [beforeOpening_closing] at hscan
    obtain ⟨x, rfl⟩ := exists_append_of_beforeOpening hscan
    -- the bracket that opens is a place of the text
    have hs : (')' :: (x ++ '(' :: back)).reverse ++ a =
        back.reverse ++ '(' :: (x.reverse ++ ')' :: a) := by
      simp
    have hskip := checked_skipBack back ('(' :: (x.reverse ++ ')' :: a)) byteClass_isBlankByte
    simp only [Option.bind_eq_bind] at hskip
    simp only [hs, Option.map_some, Option.bind_eq_bind, Option.bind_some, checked_eq, hskip]
    rfl

/-- The word that a grouping keyword can belong to ends at the same place over bytes. -/
theorem wordEnd?_eq (b a : List Char) :
    wordEnd? (b.reverse ++ a) (byteSize b) = some ((beforeWordEnd? b).map byteSize) := by
  obtain ⟨y, near, rfl, hy, hnear⟩ := exists_run isAsciiBlank b
  have hskip := checked_skipBack (y ++ near) a byteClass_isBlankByte
  have hs : (y ++ near).reverse ++ a = near.reverse ++ (y.reverse ++ a) := by simp
  rw [wordEnd?, hskip, beforeWordEnd?, dropWhile_append_eq hy hnear, hs]
  simp only [Option.bind_eq_bind, Option.bind_some]
  generalize y.reverse ++ a = r
  cases near with
  | nil => rfl
  | cons u near =>
    have hpos := u.utf8Size_pos
    obtain ⟨byte, hmem, hget⟩ := exists_last_byte near r u
    have hclose : byte = 41 ↔ u = ')' := eq_code_iff (u := ')') (by decide) hmem
    rw [if_neg (by rw [byteSize_cons]; omega), hget]
    simp only [Option.bind_some]
    by_cases hu : u = ')'
    · subst hu
      rw [if_pos (hclose.mpr rfl), beforeCall?_eq]
      rfl
    · rw [if_neg (mt hclose.mp hu)]
      simp [hu]

/-- Whether a grouping keyword belongs to an aggregation is the same over bytes. -/
theorem belongsToAggregation_eq (b a : List Char) :
    belongsToAggregation (b.reverse ++ a) (byteSize b) = some (Query.belongsToAggregation b) := by
  rw [belongsToAggregation, wordEnd?_eq, belongsToAggregation_eq_beforeWordEnd?]
  cases hback : beforeWordEnd? b with
  | none => rfl
  | some back =>
    obtain ⟨x, rfl⟩ := exists_append_of_beforeWordEnd? hback
    have hs : (x ++ back).reverse ++ a = back.reverse ++ (x.reverse ++ a) := by simp
    simp only [hs, Option.map_some, Option.bind_eq_bind, Option.bind_some]
    exact endsOperator_eq back (x.reverse ++ a)

/-- A test that never fails on the members of a list does not fail on the list. -/
theorem anyM_eq_some {α : Type} {f : α → Option Bool} {g : α → Bool} {xs : List α}
    (h : ∀ x ∈ xs, f x = some (g x)) : xs.anyM f = some (xs.any g) := by
  induction xs with
  | nil => rfl
  | cons x xs ih =>
    have hx := h x (.head _)
    have hxs := ih fun y hy => h y (.tail _ hy)
    rw [List.anyM, hx, List.any_cons]
    cases g x with
    | true => rfl
    | false => exact hxs

/-- The check over bytes has an outcome for every text: no offset it comes to is beyond the end or
inside a character. The outcome is that of the check over characters. -/
theorem hasDetachedGrouping_eq (s : List Char) :
    hasDetachedGrouping s = some (Query.hasDetachedGrouping s) := by
  refine anyM_eq_some fun m hm => ?_
  obtain ⟨b, a, rfl, hstart, -⟩ := exists_matchAt_of_mem_findAll hm
  simp only [hstart, checked_eq, braceDepth_eq, belongsToAggregation_eq, Option.bind_eq_bind,
    Option.bind_some]
  by_cases hbraces : b.count '\x7d' < b.count '\x7b'
  · have hdepth : 0 < (b.count '\x7b' : Int) - b.count '\x7d' := by omega
    rw [if_pos hdepth]
    simp [isInBraces, hbraces]
  · have hdepth : ¬ 0 < (b.count '\x7b' : Int) - b.count '\x7d' := by omega
    rw [if_neg hdepth]
    simp [isInBraces, hbraces]

end Offset

end AskMetrics.Query
