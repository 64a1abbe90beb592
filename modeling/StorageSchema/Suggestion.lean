/-
This file suggests known names in place of an unknown one.
-/
import StorageSchema.Scalar
import StorageSchema.Text.EditDistance

namespace StorageSchema

/-- A change of case alone counts as one edit. -/
def nameDistance (needle candidate : String) : Nat :=
  if lowercase candidate = lowercase needle then 1
  else Text.editDistance needle.toList candidate.toList

/-- A longer name may be further from what was meant, and its length is counted in bytes. -/
def greatestDistance (needle : String) : Nat :=
  if needle.utf8ByteSize ≤ 3 then 1
  else if needle.utf8ByteSize ≤ 6 then 2
  else if needle.utf8ByteSize ≤ 10 then 3
  else 4

/-- A candidate is a known name at its distance from the needed one. -/
structure Candidate where
  name : String
  distance : Nat
  deriving DecidableEq, Repr

/-- A name is a candidate if it is another name and near enough. -/
def Candidate.of? (needle name : String) : Option Candidate :=
  let distance := nameDistance needle name
  if name ≠ "" ∧ name ≠ needle ∧ distance ≤ greatestDistance needle then some ⟨name, distance⟩
  else none

/-- Nearer names come first, then shorter ones in bytes, then smaller ones. -/
def Candidate.comesBefore (first second : Candidate) : Bool :=
  first.distance < second.distance ||
    (first.distance = second.distance &&
      (first.name.utf8ByteSize < second.name.utf8ByteSize ||
        (first.name.utf8ByteSize = second.name.utf8ByteSize && first.name < second.name)))

/-- This function puts a candidate in its place among ranked ones, unless it is there already. -/
def Candidate.insert (candidate : Candidate) : List Candidate → List Candidate
  | [] => [candidate]
  | first :: rest =>
      if candidate = first then first :: rest
      else if candidate.comesBefore first then candidate :: first :: rest
      else first :: candidate.insert rest

/-- The ranking has every candidate once. -/
def Candidate.ranking (candidates : List Candidate) : List Candidate :=
  candidates.foldr Candidate.insert []

/-- The suggestions are the first three names of the ranking. -/
def suggestions (needle : String) (names : List String) : List String :=
  if needle = "" then []
  else ((Candidate.ranking (names.filterMap (Candidate.of? needle))).take 3).map Candidate.name

/-- A quoted name stands between backquotes. -/
def backquoted (name : String) : String := String.join ["`", name, "`"]

/-- The hint puts the suggestions in words. -/
def hint? : List String → Option String
  | [] => none
  | [name] => some (String.join ["did you mean ", backquoted name, "?"])
  | names =>
      some (String.join ["did you mean one of: ", ", ".intercalate (names.map backquoted), "?"])

end StorageSchema
