/-
This file holds the grammar of schema texts. It derives documents without marks and comments from
the symbols of a text.
-/
import StorageSchema.Document
import StorageSchema.Text.Quoted
import StorageSchema.Token.Scan

namespace StorageSchema

/-- A symbol is what the grammar sees of a token. -/
structure Symbol where
  kind : Token.Kind
  text : String
  deriving DecidableEq, Repr

def Token.symbol (token : Token) : Symbol := ⟨token.kind, token.text⟩

/-- Comments and line breaks have no part in the grammar. -/
def Token.isSignificant (token : Token) : Bool :=
  decide (token.kind ≠ .comment ∧ token.kind ≠ .newline)

/-- The significant tokens of a text are followed by its end. -/
def Token.significant (text : String) : List Token :=
  (Token.ofText text ++ [Token.endOf text]).filter Token.isSignificant

/-- The symbols of a text are those of its significant tokens. -/
def Symbol.ofText (text : String) : List Symbol := (Token.significant text).map Token.symbol

def Symbol.word (text : String) : Symbol := ⟨.identifier, text⟩

/-- A sign is one of the characters that are tokens by themselves. -/
def Symbol.sign (letter : Char) : Symbol :=
  ⟨(Token.punctuation? letter).getD .invalid, String.ofList [letter]⟩

def Symbol.ending : Symbol := ⟨.ending, ""⟩

/-- An optional symbol may be left out. -/
def Symbol.optional (present : Bool) (symbol : Symbol) : List Symbol :=
  if present then [symbol] else []

/-- A legacy spelling of a scalar is one of these in any case. -/
def Scalar.spellings : Scalar → List String
  | .boolean => ["boolean"]
  | .number => ["number", "int", "float"]
  | .string => ["string"]
  | .null => ["null"]

/-- The name of a type is no spelling of a scalar in any case, no literal and no wrapper. -/
def IsTypeName (text : String) : Prop :=
  lowercase text ∉ ["boolean", "int", "float", "number", "string", "null"] ∧
    text ∉ ["true", "false", "LiveObject", "LiveList", "LiveMap"]

mutual

/-- A primary type is a literal, a wrapper with what it holds, a scalar or a name. -/
inductive PrimaryForm (legacy : Bool) : List Symbol → TypeExpr Unit → Prop where
  | string (text : String) : PrimaryForm legacy [⟨.string, text⟩]
      (.string () (String.ofList (Text.Quoted.decode text.toList)))
  | number (text : String) : PrimaryForm legacy [⟨.number, text⟩]
      (.number () (Double.ofDecimal (Decimal.ofSpelling text.toList)))
  | yes : PrimaryForm legacy [.word "true"] (.boolean () true)
  | no : PrimaryForm legacy [.word "false"] (.boolean () false)
  | liveObject {name : String} : IsTypeName name →
      PrimaryForm legacy [.word "LiveObject", .sign '<', .word name, .sign '>']
        (.reference ⟨(), ⟨(), name⟩, true⟩)
  | liveList {word : List Symbol} {item : TypeExpr Unit} : TypeForm legacy word item →
      PrimaryForm legacy ([.word "LiveList", .sign '<'] ++ word ++ [.sign '>'])
        (.liveList () item)
  | liveMap {keyWord valueWord : List Symbol} {key value : TypeExpr Unit} :
      TypeForm legacy keyWord key → TypeForm legacy valueWord value →
      PrimaryForm legacy
        ([.word "LiveMap", .sign '<'] ++ keyWord ++ [.sign ','] ++ valueWord ++ [.sign '>'])
        (.liveMap () key value)
  | scalar (kind : Scalar) : PrimaryForm legacy [.word kind.keyword] (.scalar () kind)
  | legacyScalar {text : String} {kind : Scalar} : legacy = true →
      lowercase text ∈ kind.spellings →
      PrimaryForm legacy [.word text] (.scalar () kind)
  | name {name : String} : IsTypeName name →
      PrimaryForm legacy [.word name] (.reference ⟨(), ⟨(), name⟩, false⟩)

/-- An item is a primary type with any number of brackets after it. -/
inductive ItemForm (legacy : Bool) : List Symbol → TypeExpr Unit → Prop where
  | primary {word : List Symbol} {type : TypeExpr Unit} : PrimaryForm legacy word type →
      ItemForm legacy word type
  | array {word : List Symbol} {item : TypeExpr Unit} : ItemForm legacy word item →
      ItemForm legacy (word ++ [.sign '[', .sign ']']) (.array () item)

/-- Members are items with bars between them. -/
inductive MembersForm (legacy : Bool) : List Symbol → List (TypeExpr Unit) → Prop where
  | first {word : List Symbol} {item : TypeExpr Unit} : ItemForm legacy word item →
      MembersForm legacy word [item]
  | next {words word : List Symbol} {members : List (TypeExpr Unit)} {item : TypeExpr Unit} :
      MembersForm legacy words members → ItemForm legacy word item →
      MembersForm legacy (words ++ [.sign '|'] ++ word) (members ++ [item])

/-- A type is a single item or the union of two or more members. -/
inductive TypeForm (legacy : Bool) : List Symbol → TypeExpr Unit → Prop where
  | single {word : List Symbol} {item : TypeExpr Unit} : ItemForm legacy word item →
      TypeForm legacy word item
  | union {word : List Symbol} {first second : TypeExpr Unit} {rest : List (TypeExpr Unit)} :
      MembersForm legacy word (first :: second :: rest) →
      TypeForm legacy word (.union () (first :: second :: rest))

end

/-- A field may have a question mark after its name and a comma after its type. -/
inductive FieldForm (legacy : Bool) : List Symbol → Field Unit → Prop where
  | field (name : String) (isOptional comma : Bool) {word : List Symbol} {type : TypeExpr Unit} :
      TypeForm legacy word type →
      FieldForm legacy
        ([.word name] ++ Symbol.optional isOptional (.sign '?') ++ [.sign ':'] ++ word ++
          Symbol.optional comma (.sign ','))
        ⟨(), ⟨(), name⟩, isOptional, type, none, none⟩

/-- A sequence has words of one form, one after the other. -/
inductive SequenceForm {Tree : Type} (form : List Symbol → Tree → Prop) :
    List Symbol → List Tree → Prop where
  | nil : SequenceForm form [] []
  | next {words word : List Symbol} {trees : List Tree} {tree : Tree} :
      SequenceForm form words trees → form word tree →
      SequenceForm form (words ++ word) (trees ++ [tree])

/-- A definition has its fields between braces. -/
inductive DefinitionForm (legacy : Bool) : List Symbol → Definition Unit → Prop where
  | definition (name : String) {word : List Symbol} {fields : List (Field Unit)} :
      SequenceForm (FieldForm legacy) word fields →
      DefinitionForm legacy
        ([.word "type", .word name, .sign '\x7b'] ++ word ++ [.sign '\x7d'])
        ⟨(), ⟨(), name⟩, fields, none⟩

/-- A document is a sequence of definitions up to the end of the text. -/
inductive DocumentForm (legacy : Bool) : List Symbol → Document Unit → Prop where
  | document {word : List Symbol} {definitions : List (Definition Unit)} :
      SequenceForm (DefinitionForm legacy) word definitions →
      DocumentForm legacy (word ++ [.ending]) ⟨(), definitions⟩

end StorageSchema
