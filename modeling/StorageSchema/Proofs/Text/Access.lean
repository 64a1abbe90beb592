/-
This file shows what is found in a text at the offsets of its characters, byte by byte and as a part
of it.
-/
import StorageSchema.Proofs.Text.ByteOrder
import StorageSchema.Proofs.Token.Slice
import StorageSchema.Text.Access

namespace StorageSchema.Text

/-! ### Bytes -/

/-- The bytes of a character are taken for characters themselves. -/
def spreadOf (letter : Char) : List Char :=
  (String.utf8EncodeChar letter).map fun byte => Char.ofNat byte.toNat

/-- This is a text with each of its bytes taken for a character. -/
def spread (text : List Char) : List Char := text.flatMap spreadOf

@[simp] theorem spread_cons (letter : Char) (rest : List Char) :
    spread (letter :: rest) = spreadOf letter ++ spread rest := rfl

@[simp] theorem spread_append (first second : List Char) :
    spread (first ++ second) = spread first ++ spread second := by
  simp [spread]

theorem length_spreadOf (letter : Char) : (spreadOf letter).length = letter.utf8Size := by
  simp [spreadOf]

theorem length_spread (text : List Char) : (spread text).length = size text := by
  induction text with
  | nil => rfl
  | cons letter rest inductionHypothesis =>
      rw [spread_cons, List.length_append, length_spreadOf, inductionHypothesis, size_cons]

/-- An ASCII character is its own byte. -/
theorem spreadOf_of_ascii {letter : Char} (ascii : letter.toNat < 128) :
    spreadOf letter = [letter] := by
  have small : letter.val.toNat ≤ 127 := Nat.le_of_lt_succ ascii
  have kept : letter.val.toNat % 256 = letter.val.toNat := Nat.mod_eq_of_lt (by omega)
  have same : Char.ofNat letter.val.toNat = letter := Char.ofNat_toNat letter
  rw [spreadOf, String.utf8EncodeChar, if_pos small, List.map_singleton, UInt8.toNat_ofNat', kept,
    same]

/-- The bytes of another character are beyond ASCII. -/
theorem le_toNat_of_mem_spreadOf {letter byte : Char} (wide : 128 ≤ letter.toNat)
    (present : byte ∈ spreadOf letter) : 128 ≤ byte.toNat := by
  have large : ¬ letter.val.toNat ≤ 127 := Nat.not_le.2 wide
  obtain ⟨number, encoded, rfl⟩ := List.mem_map.1 present
  have bounded : number.toNat < 256 := number.toNat_lt
  have valid : (Char.ofNat number.toNat).toNat = number.toNat := by
    rw [Char.ofNat, dif_pos (.inl (by omega))]
    rfl
  rw [valid]
  simp only [String.utf8EncodeChar, if_neg large] at encoded
  split_ifs at encoded <;>
    simp only [List.mem_cons, List.not_mem_nil, or_false] at encoded <;>
    rcases encoded with rfl | rfl | rfl | rfl <;>
    simp only [UInt8.toNat_ofNat'] <;> omega

theorem byteAt?_eq (text : String) (offset : Nat) :
    byteAt? text offset = (spread text.toList)[offset]? := by
  have same : spread text.toList = (bytes text).map fun byte => Char.ofNat byte.toNat := by
    rw [bytes_eq, List.map_flatMap]
    rfl
  have counted : (bytes text).length = text.utf8ByteSize := rfl
  rw [same, List.getElem?_map, byteAt?]
  split
  · next inside =>
      rw [List.getElem?_eq_getElem (counted ▸ inside)]
      rfl
  · next outside =>
      rw [List.getElem?_eq_none (counted ▸ Nat.not_lt.1 outside)]
      rfl

/-- A test is uniform if it says the same of all characters beyond ASCII. -/
def IsUniform (test : Char → Bool) : Prop :=
  ∃ value, ∀ letter : Char, 128 ≤ letter.toNat → test letter = value

/-- A uniform test says of each byte what it says of the character. -/
theorem test_of_mem_spreadOf {test : Char → Bool} (uniform : IsUniform test) {letter byte : Char}
    (present : byte ∈ spreadOf letter) : test byte = test letter := by
  rcases Nat.lt_or_ge letter.toNat 128 with ascii | wide
  · rw [spreadOf_of_ascii ascii, List.mem_singleton] at present
    rw [present]
  · obtain ⟨value, same⟩ := uniform
    rw [same byte (le_toNat_of_mem_spreadOf wide present), same letter wide]

theorem spreadOf_ne_nil (letter : Char) : spreadOf letter ≠ [] := by
  rw [← List.length_pos_iff, length_spreadOf]
  exact letter.utf8Size_pos

/-- As many bytes pass a uniform test as belong to the characters that pass it. -/
theorem takeWhile_spread {test : Char → Bool} (uniform : IsUniform test) (text : List Char) :
    (spread text).takeWhile test = spread (text.takeWhile test) := by
  induction text with
  | nil => rfl
  | cons letter rest inductionHypothesis =>
      have same {byte : Char} (present : byte ∈ spreadOf letter) : test byte = test letter :=
        test_of_mem_spreadOf uniform present
      by_cases passes : test letter = true
      · rw [List.takeWhile_cons_of_pos passes, spread_cons, spread_cons,
          List.takeWhile_append_of_pos fun byte present => (same present).trans passes,
          inductionHypothesis]
      · obtain ⟨byte, bytes, shape⟩ := List.exists_cons_of_ne_nil (spreadOf_ne_nil letter)
        have fails : ¬ test byte = true := by
          rw [same (shape ▸ List.mem_cons_self)]
          exact passes
        rw [List.takeWhile_cons_of_neg passes, spread_cons, shape, List.cons_append,
          List.takeWhile_cons_of_neg fails]
        rfl

/-- A uniform test says of the next byte what it says of the next character. -/
theorem head?_spread_any {test : Char → Bool} (uniform : IsUniform test) (text : List Char) :
    (spread text).head?.any test = text.head?.any test := by
  cases text with
  | nil => rfl
  | cons letter rest =>
      obtain ⟨byte, bytes, shape⟩ := List.exists_cons_of_ne_nil (spreadOf_ne_nil letter)
      rw [spread_cons, shape]
      exact test_of_mem_spreadOf uniform (shape ▸ List.mem_cons_self)

/-- The bytes from a boundary on are those of the characters from there on. -/
theorem byteAt?_append {text : String} {before after : List Char}
    (divided : text.toList = before ++ after) (offset : Nat) :
    byteAt? text (size before + offset) = (spread after)[offset]? := by
  rw [byteAt?_eq, divided, spread_append, ← length_spread before,
    List.getElem?_append_right (Nat.le_add_right _ _), Nat.add_sub_cancel_left]

theorem byteAt?_boundary {text : String} {before after : List Char}
    (divided : text.toList = before ++ after) :
    byteAt? text (size before) = (spread after).head? := by
  have found := byteAt?_append divided 0
  rwa [Nat.add_zero, ← List.head?_eq_getElem?] at found

/-! ### Boundaries -/

/-- Where the characters of a text are divided there is a boundary. -/
theorem exists_boundary {text : String} {before after : List Char}
    (divided : text.toList = before ++ after) :
    ∃ boundary : text.Pos, text.pos? ⟨size before⟩ = some boundary ∧
      boundary.Splits (String.ofList before) (String.ofList after) := by
  have joined : text = String.ofList before ++ String.ofList after := by
    rw [← String.ofList_append, ← divided, String.ofList_toList]
  have splits := String.Pos.splits_ofEqAppend joined
  generalize String.Pos.ofEqAppend joined = boundary at splits
  have offset : (⟨size before⟩ : String.Pos.Raw) = boundary.toSlice.offset := by
    rw [size_eq_utf8ByteSize]
    exact splits.offset_eq_rawEndPos.symm
  have valid := boundary.toSlice.isValidForSlice
  refine ⟨boundary, ?_, splits⟩
  rw [offset, String.pos?, String.Slice.pos?,
    dif_pos (String.Pos.Raw.isValidForSlice_eq_true_iff.2 valid)]
  rfl

/-- The width at a boundary is that of the character after it. -/
theorem widthAt?_boundary {text : String} {before after : List Char} {letter : Char}
    (divided : text.toList = before ++ letter :: after) :
    widthAt? text (size before) = some letter.utf8Size := by
  obtain ⟨boundary, found, splits⟩ := exists_boundary divided
  have single : String.ofList (letter :: after) =
      String.singleton letter ++ String.ofList after := String.ofList_cons
  rw [single] at splits
  have inside : boundary ≠ text.endPos := splits.ne_endPos_of_singleton
  have next := boundary.splits_next_right inside
  have same := splits.eq_right next
  have letters := congrArg String.toList same
  simp only [String.toList_append, String.toList_singleton, List.singleton_append,
    List.cons.injEq] at letters
  rw [widthAt?, found, Option.map_some, dif_neg inside, letters.1]

/-- A part that stands in a text is what is cut out at its span. -/
theorem part?_of_slices {text : String} {span : Span} {part : List Char}
    (slices : Slices text.toList span part) : part? text span = some (String.ofList part) := by
  obtain ⟨before, after, divided, rfl⟩ := slices
  obtain ⟨start, startFound, startSplits⟩ := exists_boundary
    (show text.toList = before ++ (part ++ after) by rw [divided, List.append_assoc])
  obtain ⟨stop, stopFound, stopSplits⟩ := exists_boundary divided
  rw [Text.size_append] at stopFound
  have isPlace : ¬ Span.isNowhere ⟨size before, size before + size part⟩ = true := by
    simp [Span.isNowhere]
  rw [String.ofList_append] at startSplits stopSplits
  obtain ⟨_, cut⟩ := String.copy_slice_eq_iff_splits.2 ⟨_, _, startSplits, stopSplits⟩
  have same : text.extract start stop = String.ofList part := by
    rw [← cut, ← String.toByteArray_inj, String.toByteArray_extract, String.toByteArray_copy_slice]
  rw [part?, if_neg isPlace, startFound, stopFound]
  exact congrArg some same

end StorageSchema.Text
