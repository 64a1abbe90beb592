/-
This file shows that the tokens of a text have its parts at their spans, and that their numbers and
strings are spelled as they are read.
-/
import StorageSchema.Proofs.Token.Scan
import StorageSchema.Proofs.Token.Slice

namespace StorageSchema

theorem Token.isSpelled_of_mem {text : String} {token : Token}
    (present : token ∈ Token.ofText text ++ [Token.endOf text]) (solid : token.kind.IsSolid) :
    token.symbol.IsSpelled := by
  rcases List.mem_append.1 present with inside | last
  · exact Token.isSpelled_of_mem_scan inside solid
  · obtain rfl := List.mem_singleton.1 last
    exact absurd rfl solid.2.2.2.2

/-- A text is quoted if a quote of one byte stands at each end. What is between the quotes is cut
out at one byte from each end, and the value of the text is read from it. -/
def Text.IsQuoted (text : List Char) : Prop :=
  ∃ quote inner, quote.utf8Size = 1 ∧ text = quote :: inner ++ [quote] ∧
    Text.slice? text ⟨1, Text.size text - 1⟩ = some inner ∧
    Text.Quoted.decode text = Text.Quoted.unescape inner

theorem Symbol.IsSpelled.isQuoted {text : String}
    (spelled : (Symbol.mk .string text).IsSpelled) : Text.IsQuoted text.toList := by
  rw [Symbol.IsSpelled] at spelled
  generalize text.toList = letters at spelled ⊢
  cases spelled with
  | @string quote body isQuote isBody =>
      obtain ⟨inner, rfl⟩ := isBody.exists_concat
      exact ⟨quote, inner, isQuote.narrow, rfl,
        Text.slice?_inside isQuote.narrow isQuote.narrow inner,
        Text.Quoted.decode_quoted quote quote inner⟩
  | sign sign => exact absurd (Token.kind_of_punctuation? sign) (by simp)

/-- A token fits a text if it has the text at its span, and numbers and strings are spelled as they
are read. -/
structure Token.FitsText (text : String) (token : Token) : Prop where
  placed : token.span.PlacedIn text.toList
  sliced : Text.slice? text.toList token.span = some token.text.toList
  numeral : token.kind = .number → Token.IsNumeral token.text.toList
  quoted : token.kind = .string → Text.IsQuoted token.text.toList

theorem Token.fitsText_of_mem {text : String} {token : Token}
    (present : token ∈ Token.ofText text ++ [Token.endOf text]) : token.FitsText text := by
  have slices := Token.slices_of_mem present
  have spelled := Token.isSpelled_of_mem present
  constructor
  · exact slices.placed
  · exact Text.slice?_eq_some_iff.2 slices
  · intro isNumber
    have spelledSo := spelled (by simp [isNumber, Token.Kind.IsSolid])
    rw [Token.symbol, isNumber] at spelledSo
    exact spelledSo.isNumeral
  · intro isString
    have spelledSo := spelled (by simp [isString, Token.Kind.IsSolid])
    rw [Token.symbol, isString] at spelledSo
    exact spelledSo.isQuoted

end StorageSchema
