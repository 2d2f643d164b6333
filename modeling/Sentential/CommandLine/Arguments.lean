/-
# Arguments of the command line

The command takes one formula and a few options. Each argument is first sorted: an operand, the
separator `--`, after which everything is an operand, or an option, which begins with a dash. The
name of a long option may be cut short as long as it fits one option only, and its value may
follow an equals sign. An argument that looks like a negative number or holds a space is an
operand even if it begins with a dash. Then the arguments are gone through from left to right. The
first operand is the formula, and what nothing can be done with is collected and refused at the
end, but a request for help is followed at once.

Key definitions: `Flag`, `Word`, `Word.sort`, `Arguments`, `Arguments.take`, `Arguments.ofList`,
`CommandLine.usage`, `CommandLine.help`, `CommandLine.refusal`.
-/
import Sentential.Connective
import Sentential.Text

namespace Sentential

/-- An option of the command. -/
inductive Flag
  | help
  | style
  | json
  | config
  | interactive
  | verbose
  deriving DecidableEq, Repr

namespace Flag

/-- The options in the order in which messages list them. -/
def all : List Flag := [help, style, json, config, interactive, verbose]

def name : Flag → String
  | help => "--help"
  | style => "--style"
  | json => "--json"
  | config => "--config"
  | interactive => "--interactive"
  | verbose => "--verbose"

/-- An option as error messages name it. -/
def label : Flag → String
  | help => "-h/--help"
  | flag => flag.name

/-- The option takes a value. -/
def takesValue : Flag → Bool
  | style | config => true
  | _ => false

end Flag

/-- Why the arguments are refused. -/
inductive ArgumentError
  | ambiguous (argument : String) (candidates : List Flag)
  | expectedValue (flag : Flag)
  | ignoredValue (flag : Flag) (value : String)
  | unknownChoice (value : String)
  | unrecognized (arguments : List String)
  deriving DecidableEq, Repr

/-- The message of arguments that are refused. -/
def ArgumentError.message : ArgumentError → String
  | ambiguous argument candidates =>
    "ambiguous option: " ++ argument ++ " could match " ++
      String.intercalate ", " (candidates.map Flag.name)
  | expectedValue flag => "argument " ++ flag.label ++ ": expected one argument"
  | ignoredValue flag value =>
    "argument " ++ flag.label ++ ": ignored explicit argument " ++ Text.quoted value
  | unknownChoice value =>
    "argument " ++ Flag.style.label ++ ": invalid choice: " ++ Text.quoted value ++
      " (choose from " ++
      String.intercalate ", " (Style.all.map fun s => Text.quoted s.name) ++ ")"
  | unrecognized arguments =>
    "unrecognized arguments: " ++ String.intercalate " " arguments

/-- An argument that has been sorted. The short option for help keeps what is written behind it
in the same argument; other options keep the value behind the equals sign. -/
inductive Word
  | operand (s : String)
  | separator
  | shortHelp (behind : List Char)
  | flag (f : Flag) (value : Option String)
  | unknown (s : String)
  deriving DecidableEq, Repr

namespace Word

/-- All characters are digits, and there is at least one. -/
def isDigits (cs : List Char) : Bool := !cs.isEmpty && cs.all fun c => (Text.digitValue? c).isSome

/-- A text is a number behind a dash: digits, or a point with digits behind it and perhaps before
it. A line feed may end it. -/
def isNegativeNumber (cs : List Char) : Bool :=
  let number : List Char → Bool := fun cs =>
    isDigits cs ||
      match cs.dropWhile fun c => (Text.digitValue? c).isSome with
      | '.' :: fraction => isDigits fraction
      | _ => false
  match cs with
  | '-' :: cs => number cs || (cs.getLast? == some '\n' && number cs.dropLast)
  | _ => false

/-- The options whose long name begins with a text. -/
def candidates (start : List Char) : List Flag :=
  Flag.all.filter fun f => start.isPrefixOf f.name.toList

/-- Sorts an argument that begins with a dash and fits no option. -/
def sortOther (cs : List Char) : Word :=
  let s := String.ofList cs
  if isNegativeNumber cs || cs.contains ' ' then operand s else unknown s

/-- Sorts an argument that is not the separator. -/
def sort (cs : List Char) : Except ArgumentError Word :=
  let s := String.ofList cs
  match cs with
  | ['-', 'h'] => .ok (shortHelp [])
  | '-' :: '-' :: _ =>
    let start := cs.takeWhile (· ≠ '=')
    let value : Option String :=
      match cs.dropWhile (· ≠ '=') with
      | [] => none
      | _ :: value => some (String.ofList value)
    match Flag.all.find? (·.name.toList = start), candidates start with
    | some f, _ => .ok (flag f value)
    | none, [f] => .ok (flag f value)
    | none, [] => .ok (sortOther cs)
    | none, fs => .error (.ambiguous s fs)
  | '-' :: 'h' :: behind => .ok (shortHelp behind)
  | '-' :: _ :: _ => .ok (sortOther cs)
  | _ => .ok (operand s)

/-- Sorts all arguments; behind the separator all are operands. -/
def sortAll : List String → Except ArgumentError (List Word)
  | [] => .ok []
  | s :: rest =>
    if s = "--" then .ok (separator :: rest.map operand)
    else do
      let word ← sort s.toList
      let words ← sortAll rest
      return word :: words

end Word

/-- The arguments of the command. -/
structure Arguments where
  formula : Option String := none
  style : Option Style := none
  json : Bool := false
  config : Option String := none
  interactive : Bool := false
  verbose : Bool := false
  deriving DecidableEq, Repr

namespace Arguments

/-- What the command is to do: to show help, or to go on with its arguments. -/
inductive Request
  | help
  | run (a : Arguments)
  deriving DecidableEq, Repr

/-- Letters behind the short option for help are short options too, of which there is only that
one; from the first other letter on they are a value, which it does not take. -/
def checkLetters : List Char → Except ArgumentError Unit
  | [] => .ok ()
  | c :: cs =>
    if c = 'h' then checkLetters cs else .error (.ignoredValue .help (String.ofList (c :: cs)))

/-- Checks what is written behind the short option for help: letters, which an equals sign may
come before. The empty text behind an equals sign is a value. -/
def checkBehind : List Char → Except ArgumentError Unit
  | ['='] => .error (.ignoredValue .help "")
  | '=' :: cs => checkLetters cs
  | cs => checkLetters cs

/-- The arguments with the value of an option. -/
def withValue (a : Arguments) (f : Flag) (value : String) : Except ArgumentError Arguments :=
  match f with
  | .style =>
    match Style.ofName? value with
    | some style => .ok { a with style := some style }
    | none => .error (.unknownChoice value)
  | .config => .ok { a with config := some value }
  | _ => .error (.ignoredValue f value)

/-- The arguments with an option that takes no value. -/
def withFlag (a : Arguments) : Flag → Arguments
  | .json => { a with json := true }
  | .interactive => { a with interactive := true }
  | .verbose => { a with verbose := true }
  | _ => a

/-- Goes through the words. `taken` says whether the operand for the formula has been found, and
`left` holds what nothing can be done with, in reverse order. -/
def take (taken : Bool) (left : List String) (a : Arguments) :
    List Word → Except ArgumentError Request
  | [] => if left.isEmpty then .ok (.run a) else .error (.unrecognized left.reverse)
  | .shortHelp behind :: _ => (checkBehind behind).map fun _ => .help
  | .unknown s :: words => take taken (s :: left) a words
  | .flag f (some value) :: words => do take taken left (← a.withValue f value) words
  | .flag f none :: words =>
    if f = .help then .ok .help
    else if f.takesValue then
      match words with
      | .operand s :: words => do take taken left (← a.withValue f s) words
      | _ => .error (.expectedValue f)
    else take taken left (a.withFlag f) words
  | .operand s :: .separator :: words =>
    if taken then take taken ("--" :: s :: left) a words
    else take true left { a with formula := some s } words
  | .operand s :: words =>
    if taken then take taken (s :: left) a words
    else take true left { a with formula := some s } words
  | .separator :: .operand s :: words =>
    if taken then take taken (s :: "--" :: left) a words
    else take true left { a with formula := some s } words
  | .separator :: words =>
    if taken then take taken ("--" :: left) a words else take true left a words

/-- What the command is to do with a list of arguments. -/
def ofList (arguments : List String) : Except ArgumentError Request := do
  take false [] {} (← Word.sortAll arguments)

end Arguments

namespace CommandLine

/-! ### Usage -/

/-- The name of the command. -/
def commandName : String := "generate_table.py"

/-- How the command is called. -/
def usage : String :=
  "usage: generate_table.py [-h] [--style \x7bsource,plain,latex\x7d] [--json]\n" ++
  "                         [--config CONFIG] [--interactive] [--verbose]\n" ++
  "                         [formula]\n"

/-- How the command is called and what its arguments mean. -/
def help : String :=
  usage ++
  "\n" ++
  "Propositional formula → truth table\n" ++
  "\n" ++
  "positional arguments:\n" ++
  "  formula               Formula, e.g. \"A && !B\"\n" ++
  "\n" ++
  "options:\n" ++
  "  -h, --help            show this help message and exit\n" ++
  "  --style \x7bsource,plain,latex\x7d\n" ++
  "                        Glyph style for column names (default: from config,\n" ++
  "                        else plain)\n" ++
  "  --json                Print the analysis as JSON\n" ++
  "  --config CONFIG       Engine config JSON path\n" ++
  "  --interactive         Interactive mode\n" ++
  "  --verbose             Debug logging\n"

/-- What is printed when the arguments are refused. -/
def refusal (e : ArgumentError) : String :=
  usage ++ commandName ++ ": error: " ++ e.message ++ "\n"

end CommandLine
end Sentential
