/-
This file holds the problems that a document can have, and words them.
-/
import StorageSchema.Check.Classification
import StorageSchema.Diagnostic
import StorageSchema.Suggestion

namespace StorageSchema

/-- A fault is what is wrong about a part of a document. -/
inductive Fault where
  | reservedName (name : String)
  | repeatedType (name : String)
  | repeatedField (field type : String)
  | missingRoot
  | mapKey
  | unknownType (name : String) (suggestions : List String)
  | staticCycle (members : List String)
  deriving DecidableEq, Repr

/-- A problem is a fault of the part with the mark. -/
structure Problem (Mark : Type) where
  mark : Mark
  fault : Fault
  deriving DecidableEq, Repr

/-- The wording of a fault names what it is about. -/
def Fault.message : Fault → String
  | .reservedName name =>
      String.join ["type name ", backquoted name, " is reserved for a built-in type"]
  | .repeatedType name => String.join ["a type named ", backquoted name, " is already defined"]
  | .repeatedField field type =>
      String.join ["field ", backquoted field, " is already defined in type ", backquoted type]
  | .missingRoot =>
      String.join ["missing root type ", backquoted rootName, ", every schema needs a `type ",
        rootName, " \x7b ... \x7d` definition"]
  | .mapKey => "`LiveMap` keys must be of type `string`"
  | .unknownType name suggestions =>
      let unknown := String.join ["unknown type ", backquoted name]
      match hint? suggestions with
      | some hint => String.join [unknown, ", ", hint]
      | none => unknown
  | .staticCycle members =>
      String.join ["static types cannot reference themselves in a cycle (",
        ", ".intercalate (members.map backquoted),
        "), wrap one of the references in `LiveObject<...>` or `LiveList<...>`"]

/-- This function moves a problem to another mark. -/
def Problem.map {Mark Other : Type} (change : Mark → Other) (problem : Problem Mark) :
    Problem Other :=
  ⟨change problem.mark, problem.fault⟩

/-- A missing root is shown where the document begins. -/
def Problem.span (problem : Problem Span) : Span :=
  match problem.fault with
  | .missingRoot => Span.point problem.mark.start
  | _ => problem.mark

/-- A problem is shown at its span. -/
def Problem.diagnostic (problem : Problem Span) : Diagnostic :=
  ⟨problem.span, problem.fault.message⟩

end StorageSchema
