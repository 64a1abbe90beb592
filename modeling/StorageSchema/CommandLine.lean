/-
This file says what the command line program does with its arguments and its source.
-/
import StorageSchema.Json.Document
import StorageSchema.Review

namespace StorageSchema

/-- An invocation asks for one source to be checked. Without a file it is the standard input. -/
structure Invocation where
  file : Option String
  allowsLegacy : Bool
  wantsJson : Bool
  deriving DecidableEq, Repr

/-- A source that cannot be read has a reason. -/
inductive ReadFailure where
  | notFound
  | isDirectory
  | notText
  | other (reason : String)
  deriving DecidableEq, Repr

/-- An outcome is all that an invocation leaves behind. -/
structure Outcome where
  code : Nat
  output : String
  errors : String
  deriving DecidableEq, Repr

/-- One argument is an option or the only file, and a hyphen stands for the standard input. -/
def Invocation.addArgument? (invocation : Invocation) (argument : String) :
    Option Invocation :=
  if argument = "--json" then some { invocation with wantsJson := true }
  else if argument = "--allow-legacy-builtins" then
    some { invocation with allowsLegacy := true }
  else if argument ≠ "-" ∧ argument.toList.head? = some '-' then none
  else if invocation.file.isSome then none
  else some { invocation with file := some argument }

/-- The environment can allow legacy keywords too. -/
def Invocation.ofArguments? (legacySetting : Option String) (arguments : List String) :
    Option Invocation :=
  arguments.foldlM Invocation.addArgument? ⟨none, legacySetting = some "true", false⟩

/-- This is the file to read, if it is not the standard input. -/
def Invocation.path? (invocation : Invocation) : Option String :=
  invocation.file.filter (· != "-")

/-- A failure to read names the source by this name. -/
def Invocation.sourceName (invocation : Invocation) : String :=
  invocation.path?.getD "stdin"

/-- The reason is worded as the system words it. -/
def ReadFailure.reason : ReadFailure → String
  | .notFound => "No such file or directory (os error 2)"
  | .isDirectory => "Is a directory (os error 21)"
  | .notText => "stream did not contain valid UTF-8"
  | .other reason => reason

/-- A source must be a text in UTF-8. -/
def sourceText (content : Except ReadFailure ByteArray) : Except ReadFailure String :=
  content.bind fun bytes =>
    match String.fromUTF8? bytes with
    | some text => .ok text
    | none => .error .notText

/-- A source that cannot be read is named together with the reason. -/
def Outcome.unreadable (invocation : Invocation) (failure : ReadFailure) : Outcome :=
  ⟨1, "", String.join ["Error: failed to read ", invocation.sourceName, "\n\nCaused by:\n    ",
    failure.reason, "\n"]⟩

/-- A failure is printed on the error stream alone. -/
def Outcome.failed (failure : Failure) : Outcome :=
  ⟨1, "", String.join [failure.rendered.getD "", "\n"]⟩

/-- The summary has one line for each definition, and the root comes first. -/
def Schema.summary {Mark : Type} (schema : Schema Mark) : String :=
  String.join (String.join [schema.root.name, " (root)\n"] ::
    schema.definitions.map fun classified =>
      String.join [classified.name, if classified.isStatic then " (static)\n" else " (live)\n"])

/-- A schema is printed as a JSON value or as a summary. -/
def Outcome.succeeded (invocation : Invocation) (schema : Schema Span) : Outcome :=
  let output :=
    if invocation.wantsJson then String.join [schema.toJson.pretty 0, "\n"]
    else schema.summary
  ⟨0, output, ""⟩

/-- The text is read into a document, which is checked in the same review. -/
def Invocation.checkText (invocation : Invocation) (text : String) : Outcome :=
  match (Review.ofText text).read invocation.allowsLegacy with
  | (.error failure, _) => Outcome.failed failure
  | (.ok document, review) =>
      match (review.check document).1 with
      | .error failure => Outcome.failed failure
      | .ok schema => Outcome.succeeded invocation schema

/-- An invocation checks its source, if that can be read. -/
def Invocation.run (invocation : Invocation) (content : Except ReadFailure ByteArray) : Outcome :=
  match sourceText content with
  | .error failure => Outcome.unreadable invocation failure
  | .ok text => invocation.checkText text

end StorageSchema
