/-
# The command

Reads the environment, the files and the input, and prints what `CommandLine.plan` and
`CommandLine.turn` say, on a simple console.

Key definitions: `main`.
-/
import Sentential.CommandLine.Run

namespace Sentential
namespace CommandLine

/-- The variables of the settings that are set. -/
def readVariables : IO Environment :=
  Settings.Key.all.filterMapM fun key => do
    return (← IO.getEnv key.variableName).map fun value => (key.variableName, value)

/-- The content of the file at a path, or what there is in its place. -/
def readContent (path : String) : IO (Except Entry String) := do
  try
    return .ok (← IO.FS.readFile path)
  catch
    | .noFileOrDirectory .. => return .error .missing
    | _ => return .error .directory

/-- What there is at a path. -/
def readEntry (path : String) : IO Entry := do
  match ← readContent path with
  | .error entry => return entry
  | .ok content =>
    if whole : Json.hasLoneHalf content.toList = false then return .file content whole
    else throw (IO.userError "an escape gives half of a pair of code units alone")

/-- The variables that are set, completed by the lines of the file `.env` if there is one. -/
def readEnvironment : IO Environment := do
  let set ← readVariables
  match ← readContent ".env" with
  | .ok content => return set.completedBy (Environment.ofLines content)
  | .error _ => return set

/-- What the command finds around it; of the files only the one that the arguments name. -/
def readWorld (arguments : List String) : IO World := do
  let environment ← readEnvironment
  match Arguments.ofList arguments with
  | .ok (.run { config := some path, .. }) =>
    let entry ← readEntry path
    return ⟨environment, fun _ => entry⟩
  | _ => return ⟨environment, fun _ => .missing⟩

/-- Reads a line of the input, unless it is at its end. -/
def readLine? (input : IO.FS.Stream) : IO (Option String) := do
  let text ← input.getLine
  if text.isEmpty then return none
  return some (if text.endsWith "\n" then (text.dropEnd 1).toString else text)

/-- Takes turns until one of them is the last. -/
partial def converse (c : Console) (s : Settings) (a : Arguments) (moment : Nat)
    (input output : IO.FS.Stream) : IO (Except Unprintable Unit) := do
  output.putStr prompt
  output.flush
  match turn c s a moment (← readLine? input) with
  | .error u => return .error u
  | .ok t =>
    output.putStr t.output
    if t.goesOn then converse c s a (moment + 1) input output else return .ok ()

end CommandLine
end Sentential

open Sentential CommandLine in
def main (arguments : List String) : IO UInt32 := do
  let abort (message : String) : IO UInt32 := do
    (← IO.getStderr).putStrLn message
    return 1
  let output ← IO.getStdout
  match plan .plain (← readWorld arguments) arguments with
  | .error e => abort e.message
  | .ok (.finish outcome) =>
    output.putStr outcome.output
    (← IO.getStderr).putStr outcome.errors
    return outcome.code.toUInt32
  | .ok (.converse s a) =>
    output.putStr (opening .plain a)
    match ← converse .plain s a 1 (← IO.getStdin) output with
    | .ok () => return 0
    | .error u => abort u.message
