import Tabula.CommandLine
import Tabula.FileTree

/-!
The program: reads the arguments and every file that the named program may import, carries out the
command, and writes what it leaves.
-/

namespace Tabula.Main

/-- The text of a fault that the system reports by number. Some calls give the number negated. -/
def systemText (code : UInt32) (details : String) : String :=
  let number := if code.toNat < twoTo 31 then code.toNat else twoTo 32 - code.toNat
  let faults : List FileFault := [.notFound, .notDirectory, .isDirectory, .nameTooLong]
  match faults.find? (·.number? == some number) with
  | some fault => fault.message
  | none => String.join [details.capitalize, " (os error ", Nat.repr number, ")"]

/-- The text of a failure to read a file. -/
def failureText : IO.Error → String
  | .noFileOrDirectory _ code details => systemText code details
  | .inappropriateType _ code details => systemText code details
  | .permissionDenied _ code details => systemText code details
  | .invalidArgument _ code details => systemText code details
  | .illegalOperation code details => systemText code details
  | .otherError code details => systemText code details
  | other => toString other

/-- Reads a file as text. -/
def readText (path : String) : IO (Except String String) := do
  try
    let bytes ← IO.FS.readBinFile path
    match String.fromUTF8? bytes with
    | some text => return .ok text
    | none => return .error FileFault.notText.message
  catch failure => return .error (failureText failure)

/-- Reads the files at some paths and all that they import from a directory. -/
partial def gather (config : ImportConfig) (directory : Option String)
    (known : Table (Except String String)) : List String → IO (Table (Except String String))
  | [] => return known
  | path :: rest =>
      if known.contains path then gather config directory known rest
      else do
        let outcome ← readText path
        let further :=
          match outcome, directory with
          | .ok text, some directory =>
              (CommandLine.importsOfText config text).map (Path.join directory)
          | _, _ => []
        gather config directory (known.insert path outcome) (further ++ rest)

/-- Writes the outcome of a command. -/
def report (outcome : CommandLine.Outcome) : IO UInt32 := do
  (← IO.getStdout).putStr outcome.out
  (← IO.getStderr).putStr outcome.err
  return outcome.exitCode.toUInt32

/-- Carries out the command that some arguments ask for. -/
def run (arguments : List String) : IO UInt32 := do
  match ({} : CommandLine.Options).ofArguments arguments with
  | .error argument =>
      report (CommandLine.misused (String.join ["unexpected argument '", argument, "' found"]))
  | .ok options =>
      let directory := options.path.bind Path.parent?
      let known ← gather options.config directory [] options.path.toList
      let read := fun path => (known.get? path).getD (.error FileFault.notFound.message)
      match CommandLine.execute read options with
      | some outcome => report outcome
      | none => report (CommandLine.stopped "" "Error: evaluation is nested too deeply")

end Tabula.Main

/-- The entry point. -/
def main (arguments : List String) : IO UInt32 := Tabula.Main.run arguments
