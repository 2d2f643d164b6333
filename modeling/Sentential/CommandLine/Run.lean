/-
# Running the command

What the command prints and how it exits depends on its arguments, on the environment and the
files around it, and on its input. The settings come from the file that the arguments name, or
else from the environment, and the style from the arguments if they give one. With a formula, it
is shown; in interactive mode, each line of the input is, until one of them is `exit` or `quit`;
with neither, the usage is explained. If the arguments ask for it, the lines of the debug log stand
between what is printed.

Wrong settings are reported. The command stops without a report when the keys of the settings are
wrong, when the file is a directory, and when something cannot be printed.

Key definitions: `CommandLine.World`, `CommandLine.Outcome`, `CommandLine.Abort`,
`CommandLine.loadSettings`, `CommandLine.turn`, `CommandLine.interact`, `CommandLine.plan`,
`CommandLine.run`.
-/
import Sentential.CommandLine.Arguments
import Sentential.CommandLine.Display

namespace Sentential
namespace CommandLine

/-- What there is at a path. A file holds a text in which escapes give no half of a pair of code
units alone, for such a half stands for no character and so no text could hold it. -/
inductive Entry
  | missing
  | directory
  | file (content : String) (whole : Json.hasLoneHalf content.toList = false)

/-- What the command finds around it. The environment has been read: what is said by whoever reads it,
if a line of a file cannot be understood, is not among what the command prints here. -/
structure World where
  environment : Environment
  entry : String → Entry

/-- What the command has printed, and its exit code. -/
structure Outcome where
  code : Nat
  output : String := ""
  errors : String := ""
  deriving DecidableEq, Repr

/-- Why the command stops without a report. -/
inductive Abort
  | settings (e : SettingsError)
  | directory (path : String)
  | unprintable (u : Unprintable)

def Abort.message : Abort → String
  | settings e => e.message
  | directory path => "[Errno 21] Is a directory: " ++ Text.quoted path
  | unprintable u => u.message

variable (c : Console)

/-! ### Settings -/

/-- The error is in the shape of the settings, not in a value, and is not reported. -/
def isMisuse : SettingsError → Bool
  | .unknownKey _ | .reservedKey _ | .notAnObject _ => true
  | _ => false

/-- Settings, or the outcome of a run that ends for want of them. -/
def reported (s : Except SettingsError Settings) : Except Abort (Except Outcome Settings) :=
  match s with
  | .ok s => .ok (.ok s)
  | .error e =>
    if isMisuse e then .error (.settings e)
    else .ok (.error ⟨1, problemLine c ("Invalid configuration: " ++ e.message), ""⟩)

/-- The outcome of a run whose arguments name a file that is missing. -/
def missingFile (path : String) : Except Abort Outcome :=
  ((c.markupLine ("❌ Config not found: " ++ path)).map fun output =>
    (⟨1, output, ""⟩ : Outcome)).mapError .unprintable

def loadSettings (w : World) (a : Arguments) : Except Abort (Except Outcome Settings) := do
  let loaded ←
    match a.config.filter (· ≠ "") with
    | none => reported c (Settings.ofEnvironment w.environment)
    | some path =>
      match w.entry path with
      | .missing => (missingFile c path).map .error
      | .directory => .error (.directory path)
      | .file content _ => reported c (Settings.ofFile content)
  return loaded.map fun s =>
    match a.style with
    | some style => s.withStyle style
    | none => s

/-! ### Interactive mode -/

/-- What the debug log gets at a moment, if the arguments ask for it. -/
def logged (a : Arguments) (moment : Nat) : String := if a.verbose then c.log moment else ""

def prompt : String := "⊢ > "

/-- The line with which interactive mode begins. -/
def greeting : String := c.line "Interactive mode — type 'exit' to quit\n"

/-- The line with which interactive mode ends. -/
def farewell : String := c.line "\n👋 Bye!"

/-- A line of the input asks to end interactive mode. -/
def isExit (input : String) : Bool :=
  let word := String.ofList ((Text.trim Text.isBlank input.toList).map Char.toLower)
  word = "exit" || word = "quit"

/-- What is printed for a line of the input that is shown as the text of a moment. -/
def reply (s : Settings) (a : Arguments) (moment : Nat) (input : String) :
    Except Unprintable String :=
  (display c s a.json input).map fun shown => logged c a moment ++ shown.output ++ "\n"

/-- What a turn of interactive mode prints after the prompt, and whether another one follows. -/
structure Turn where
  output : String
  goesOn : Bool

/-- The turn in which a line of the input is read, or in which there is none left. -/
def turn (s : Settings) (a : Arguments) (moment : Nat) : Option String → Except Unprintable Turn
  | none => .ok ⟨farewell c, false⟩
  | some input =>
    if isExit input then .ok ⟨farewell c, false⟩
    else (reply c s a moment input).map fun output => ⟨output, true⟩

/-- What is printed from a prompt on, until the lines of the input end. -/
def interact (s : Settings) (a : Arguments) (moment : Nat) :
    List String → Except Unprintable String
  | [] => do
    let last ← turn c s a moment none
    return prompt ++ last.output
  | input :: inputs => do
    let first ← turn c s a moment (some input)
    if first.goesOn then
      let rest ← interact s a (moment + 1) inputs
      return prompt ++ first.output ++ rest
    else return prompt ++ first.output

/-- The lines of the input; a line feed at the end starts no new line. -/
def inputLines (input : String) : List String :=
  let lines := Text.lines input.toList
  let lines := if lines.getLast? = some [] then lines.dropLast else lines
  lines.map String.ofList

/-! ### Runs -/

/-- What remains to be done once the settings are known: nothing, or to answer the lines of the
input in interactive mode. -/
inductive Plan
  | finish (o : Outcome)
  | converse (s : Settings) (a : Arguments)

def planWith (s : Settings) (a : Arguments) : Except Unprintable Plan :=
  if a.interactive then .ok (.converse s a)
  else
    match a.formula with
    | none => .ok (.finish ⟨0, logged c a 0 ++ help, ""⟩)
    | some text =>
      (display c s a.json text).map fun shown =>
        .finish ⟨if shown.success then 0 else 1,
          logged c a 0 ++ logged c a 1 ++ shown.output, ""⟩

def plan (w : World) (arguments : List String) : Except Abort Plan :=
  match Arguments.ofList arguments with
  | .error e => .ok (.finish ⟨2, "", refusal e⟩)
  | .ok .help => .ok (.finish ⟨0, help, ""⟩)
  | .ok (.run a) => do
    match ← loadSettings c w a with
    | .error outcome => return .finish outcome
    | .ok s => (planWith c s a).mapError .unprintable

/-- What is printed before the first prompt. -/
def opening (a : Arguments) : String := logged c a 0 ++ greeting c

/-- The outcome of the command, when its input is given as a whole. -/
def run (w : World) (arguments : List String) (input : String) : Except Abort Outcome := do
  match ← plan c w arguments with
  | .finish outcome => return outcome
  | .converse s a =>
    let output ← (interact c s a 1 (inputLines input)).mapError Abort.unprintable
    return ⟨0, opening c a ++ output, ""⟩

end CommandLine
end Sentential
