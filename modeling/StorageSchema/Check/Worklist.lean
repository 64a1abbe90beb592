/-
This file classifies the definitions of a document with a worklist of names. The flag of a name is
looked up when the name is visited, and it must be there then.
-/
import StorageSchema.Check.Classification

namespace StorageSchema

/-- A worklist has the flags that names have been given, latest first, and the names that wait for a
visit. A flag tells whether the definition is live. -/
structure Worklist where
  flags : List (String × Bool)
  waiting : List String
  deriving DecidableEq, Repr

/-- The flag of a name is the one that it has been given last. -/
def Worklist.flag? (worklist : Worklist) (name : String) : Option Bool :=
  worklist.flags.lookup name

/-- A name waits for a visit whenever it gets its first flag or a plain one is raised. -/
def Worklist.reach (worklist : Worklist) (arrival : Arrival) : Worklist :=
  let isChanged :=
    match worklist.flag? arrival.name with
    | none => true
    | some wasLive => arrival.isLive && !wasLive
  if isChanged then
    ⟨(arrival.name, arrival.isLive) :: worklist.flags, arrival.name :: worklist.waiting⟩
  else worklist

variable {Mark : Type}

/-- A visit follows the usages in a definition, with the flag that its name has by then. The flag
must be there. -/
def Document.visit? (document : Document Mark) (worklist : Worklist) : Option Worklist :=
  match worklist.waiting with
  | [] => some worklist
  | name :: rest => do
      let isLive ← worklist.flag? name
      some ((document.departures ⟨name, isLive⟩).foldl Worklist.reach ⟨worklist.flags, rest⟩)

/-- Names are visited until none waits, for a number of rounds that must be enough. -/
def Document.visitAll? (document : Document Mark) : Nat → Worklist → Option Worklist
  | rounds, worklist =>
      match worklist.waiting, rounds with
      | [], _ => some worklist
      | _ :: _, 0 => none
      | _ :: _, rounds + 1 => do document.visitAll? rounds (← document.visit? worklist)

/-- The root waits first with a plain flag, and every other name can wait twice. -/
def Document.classify? (document : Document Mark) : Option Worklist :=
  document.visitAll? (2 * document.definitions.length + 1) ⟨[(rootName, false)], [rootName]⟩

/-- A name without a flag is static, and the root never is. -/
def Worklist.isStatic (worklist : Worklist) (definition : Definition Mark) : Bool :=
  definition.name.text != rootName && !(worklist.flag? definition.name.text).getD false

end StorageSchema
