/-
This file says which words have which meaning.
-/
import StorageSchema.Grammar
import StorageSchema.Word

namespace StorageSchema

theorem Wrapper.ofKeyword?_eq_none {text : String}
    (plain : text ∉ ["LiveObject", "LiveList", "LiveMap"]) : ofKeyword? text = none := by
  unfold ofKeyword?
  split <;> simp_all

theorem Wrapper.ofKeyword?_eq_some_iff {text : String} {wrapper : Wrapper} :
    ofKeyword? text = some wrapper ↔ text = wrapper.keyword := by
  constructor
  · intro recognised
    unfold ofKeyword? at recognised
    split at recognised <;> cases recognised <;> rfl
  · rintro rfl
    cases wrapper <;> rfl

theorem Scalar.ofKeyword?_eq_some_iff {text : String} {scalar : Scalar} :
    ofKeyword? text = some scalar ↔ text = scalar.keyword := by
  constructor
  · intro recognised
    unfold ofKeyword? at recognised
    split at recognised <;> cases recognised <;> rfl
  · rintro rfl
    exact Scalar.ofKeyword?_keyword scalar

theorem Scalar.ofLegacyKeyword?_eq_some_iff {text : String} {scalar : Scalar} :
    ofLegacyKeyword? text = some scalar ↔ lowercase text ∈ scalar.spellings := by
  constructor
  · intro recognised
    unfold ofLegacyKeyword? at recognised
    split at recognised <;> cases recognised <;> simp_all [spellings]
  · intro spelled
    unfold ofLegacyKeyword?
    cases scalar <;> simp only [spellings, List.mem_cons, List.not_mem_nil, or_false] at spelled
    · rw [spelled]; rfl
    · rcases spelled with spelled | spelled | spelled <;> rw [spelled] <;> rfl
    · rw [spelled]; rfl
    · rw [spelled]; rfl

theorem Scalar.ofLegacyKeyword?_eq_none_iff {text : String} :
    ofLegacyKeyword? text = none ↔
      lowercase text ∉ ["boolean", "int", "float", "number", "string", "null"] := by
  unfold ofLegacyKeyword?
  split <;> simp_all

/-- A spelling of a scalar is no literal and no wrapper. -/
theorem Scalar.ne_of_mem_spellings {text : String} {scalar : Scalar}
    (spelled : lowercase text ∈ scalar.spellings) :
    text ∉ ["true", "false", "LiveObject", "LiveList", "LiveMap"] := by
  intro present
  simp only [List.mem_cons, List.not_mem_nil, or_false] at present
  rcases present with rfl | rfl | rfl | rfl | rfl <;> revert spelled <;> cases scalar <;> decide

/-- A text spells a word if it can be written for what the word means. -/
def Word.IsSpelling (text : String) : Word → Prop
  | .boolean value => text = if value then "true" else "false"
  | .wrapper kind => text = kind.keyword
  | .scalar kind => text = kind.keyword
  | .legacyScalar kind => lowercase text ∈ kind.spellings ∧ text ≠ kind.keyword
  | .name => IsTypeName text

theorem Word.isSpelling_ofText (text : String) : (Word.ofText text).IsSpelling text := by
  unfold Word.ofText
  split
  · next isTrue => exact isTrue
  split
  · next isFalse => exact isFalse
  split
  · next kind isWrapper => exact Wrapper.ofKeyword?_eq_some_iff.1 isWrapper
  next noWrapper =>
  split
  · next kind isScalar => exact Scalar.ofKeyword?_eq_some_iff.1 isScalar
  next noScalar =>
  split
  · next kind isLegacy =>
      refine ⟨Scalar.ofLegacyKeyword?_eq_some_iff.1 isLegacy, ?_⟩
      rintro rfl
      rw [Scalar.ofKeyword?_keyword] at noScalar
      cases noScalar
  next noTrue noFalse _ _ _ noLegacy =>
      refine ⟨Scalar.ofLegacyKeyword?_eq_none_iff.1 noLegacy, ?_⟩
      simp only [List.mem_cons, List.not_mem_nil, or_false]
      rintro (same | same | rfl | rfl | rfl)
      · exact noTrue same
      · exact noFalse same
      · cases noWrapper
      · cases noWrapper
      · cases noWrapper

/-- A text spells one word only, which is its meaning. -/
theorem Word.ofText_eq_iff {text : String} {word : Word} :
    Word.ofText text = word ↔ word.IsSpelling text := by
  constructor
  · rintro rfl
    exact Word.isSpelling_ofText text
  · intro spelling
    cases word with
    | boolean value =>
        obtain rfl : text = if value then "true" else "false" := spelling
        cases value <;> rfl
    | wrapper kind =>
        obtain rfl : text = kind.keyword := spelling
        cases kind <;> rfl
    | scalar kind =>
        obtain rfl : text = kind.keyword := spelling
        cases kind <;> rfl
    | legacyScalar kind =>
        have legacy := Scalar.ofLegacyKeyword?_eq_some_iff.2 spelling.1
        have plain := Scalar.ne_of_mem_spellings spelling.1
        have noWrapper : Wrapper.ofKeyword? text = none :=
          Wrapper.ofKeyword?_eq_none fun present => plain (.tail _ (.tail _ present))
        have noScalar : Scalar.ofKeyword? text = none := by
          rw [Option.eq_none_iff_forall_ne_some]
          intro other recognised
          have same := Scalar.ofKeyword?_eq_some_iff.1 recognised
          rw [same, Scalar.ofLegacyKeyword?_keyword] at legacy
          exact spelling.2 (Option.some.inj legacy ▸ same)
        simp_all [Word.ofText]
    | name =>
        have noLegacy := Scalar.ofLegacyKeyword?_eq_none_iff.2 spelling.1
        have plain := spelling.2
        have noWrapper : Wrapper.ofKeyword? text = none :=
          Wrapper.ofKeyword?_eq_none fun present => plain (.tail _ (.tail _ present))
        have noScalar : Scalar.ofKeyword? text = none := by
          rw [Option.eq_none_iff_forall_ne_some]
          intro other recognised
          rw [Scalar.ofKeyword?_eq_some_iff.1 recognised, Scalar.ofLegacyKeyword?_keyword]
            at noLegacy
          cases noLegacy
        simp_all [Word.ofText]

/-- A legacy spelling of a scalar means that scalar, be it the keyword or not. -/
theorem Word.ofText_of_mem_spellings {text : String} {kind : Scalar}
    (spelled : lowercase text ∈ kind.spellings) :
    Word.ofText text = .scalar kind ∨ Word.ofText text = .legacyScalar kind := by
  by_cases exact : text = kind.keyword
  · exact .inl (Word.ofText_eq_iff.2 exact)
  · exact .inr (Word.ofText_eq_iff.2 ⟨spelled, exact⟩)

end StorageSchema
