/-
This file is the command line program, which reads the source and prints the outcome.
-/
import StorageSchema.CommandLine

namespace StorageSchema

/-- This is the failure behind an error of the system. -/
def ReadFailure.ofError : IO.Error → ReadFailure
  | .noFileOrDirectory .. => .notFound
  | .inappropriateType .. => .isDirectory
  | error => .other (toString error)

/-- This function reads a file, or the standard input if there is none. -/
def readSource (path : Option String) : IO (Except ReadFailure ByteArray) :=
  try
    match path with
    | some file => return .ok (← IO.FS.readBinFile file)
    | none => return .ok (← (← IO.getStdin).readBinToEnd)
  catch error => return .error (ReadFailure.ofError error)

/-- Arguments that make no invocation are answered with the ones that do. -/
def usageText : String := "usage: [--json] [--allow-legacy-builtins] [FILE]\n"

end StorageSchema

open StorageSchema in
def main (arguments : List String) : IO UInt32 := do
  let setting ← IO.getEnv "LIVESCHEMA_ALLOW_LEGACY_BUILTINS"
  match Invocation.ofArguments? setting arguments with
  | none =>
      IO.eprint usageText
      return 2
  | some invocation =>
      let outcome := invocation.run (← readSource invocation.path?)
      IO.print outcome.output
      IO.eprint outcome.errors
      return outcome.code.toUInt32
