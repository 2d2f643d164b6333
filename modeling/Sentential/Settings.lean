/-
# Settings

The settings are the style in which formulas are shown, the limits on propositions and on
connectives, and the two glyphs for the truth values. They are given by key, in any order, those
that are left out having their defaults. A style is a text in upper or lower case; a limit is an
integer that is not negative; a glyph is any value that holds something, and the two glyphs differ.

A file of settings holds one JSON object. It is written over several lines, and read with any of
the usual line ends. In the environment each setting has a variable. A variable that is not there
may be given by a line `NAME=value` of a file, the last of several such lines counting; a variable
that is there, even an empty one, is not looked up in the file. An empty variable leaves its
setting at the default.

Key definitions: `Settings`, `Settings.Key`, `SettingsError`, `Settings.ofMembers`,
`Settings.members`, `Settings.replace`, `Settings.fileContent`, `Settings.ofFile`, `Environment`,
`Environment.ofLines`, `Environment.completedBy`, `Settings.ofEnvironment`.
-/
import Sentential.Formula.Build
import Sentential.Json.Printer
import Sentential.Json.Reader
import Sentential.Table

namespace Sentential

/-- The settings of the library. -/
structure Settings where
  style : Style := .plain
  maxPropositions : Nat := Table.defaultLimit
  maxOperators : Nat := Formula.defaultLimit
  trueGlyph : Json := .str "1"
  falseGlyph : Json := .str "0"
  trueGlyph_held : trueGlyph.isVacant = false := by rfl
  falseGlyph_held : falseGlyph.isVacant = false := by rfl
  glyphs_differ : trueGlyph.same falseGlyph = false := by rfl

inductive Settings.Key
  | style
  | maxPropositions
  | maxOperators
  | trueGlyph
  | falseGlyph
  deriving DecidableEq, Repr

def Settings.Key.name : Key → String
  | style => "style"
  | maxPropositions => "max_propositions"
  | maxOperators => "max_operators"
  | trueGlyph => "true_glyph"
  | falseGlyph => "false_glyph"

/-- The environment variable of a setting. -/
def Settings.Key.variableName (key : Key) : String :=
  "TRUTHTABLE_" ++ String.ofList (key.name.toList.map Char.toUpper)

/-- What is wrong with settings. -/
inductive SettingsError
  | unknownKey (name : String)
  | reservedKey (name : String)
  | notAnObject (value : Json)
  | unknownStyle (value : Json)
  | notAnInteger (key : Settings.Key) (value : Json)
  | negative (key : Settings.Key) (value : Int)
  | vacantGlyph
  | sameGlyphs (value : Json)
  | notANumeral (key : Settings.Key) (text : String)
  | unreadable (e : Json.ReadError)

def SettingsError.message : SettingsError → String
  | unknownKey name =>
    "EngineConfig.__init__() got an unexpected keyword argument '" ++ name ++ "'"
  | reservedKey name =>
    "EngineConfig.__init__() got multiple values for argument '" ++ name ++ "'"
  | notAnObject value =>
    "truthtable.engine.config.EngineConfig() argument after ** must be a mapping, not " ++
      value.kindName
  | unknownStyle value =>
    "style debe ser uno de " ++ String.intercalate ", " (Style.all.map Style.name) ++
      ", recibí " ++ value.literal
  | notAnInteger key value => key.name ++ " debe ser un entero, recibí " ++ value.literal
  | negative key value => key.name ++ " no puede ser negativo, recibí " ++ toString value
  | vacantGlyph => "true_glyph y false_glyph no pueden estar vacios"
  | sameGlyphs value =>
    "true_glyph y false_glyph deben ser distintos, ambos son " ++ value.literal
  | notANumeral key text =>
    key.variableName ++ " debe ser un entero, recibí " ++ Text.quoted text
  | unreadable e => e.message

namespace Settings

namespace Key

/-- All keys, in the order in which settings are written. -/
def all : List Key := [style, maxPropositions, maxOperators, trueGlyph, falseGlyph]

end Key

/-- The name that no key may have, since it stands for the settings themselves. -/
def reservedName : String := "self"

/-- The first name among `names` that is no key is an error. -/
def checkNames : List String → Except SettingsError Unit
  | [] => .ok ()
  | name :: names =>
    if name = reservedName then .error (.reservedKey name)
    else if Key.all.any (·.name = name) then checkNames names
    else .error (.unknownKey name)

/-- The style that a value stands for. -/
def readStyle (value : Json) : Except SettingsError Style :=
  match value with
  | .str s =>
    match Style.ofName? (String.ofList (s.toList.map Char.toLower)) with
    | some style => .ok style
    | none => .error (.unknownStyle value)
  | _ => .error (.unknownStyle value)

/-- The limit that a value stands for. -/
def readLimit (key : Key) (value : Json) : Except SettingsError Nat :=
  match value with
  | .int n => if n < 0 then .error (.negative key n) else .ok n.toNat
  | _ => .error (.notAnInteger key value)

/-- Settings with the given glyphs, if they hold something and differ. -/
def withGlyphs (style : Style) (maxPropositions maxOperators : Nat) (trueGlyph falseGlyph : Json) :
    Except SettingsError Settings :=
  if h : trueGlyph.isVacant = false ∧ falseGlyph.isVacant = false then
    if hd : trueGlyph.same falseGlyph = false then
      .ok ⟨style, maxPropositions, maxOperators, trueGlyph, falseGlyph, h.1, h.2, hd⟩
    else .error (.sameGlyphs trueGlyph)
  else .error .vacantGlyph

/-- The settings as values with their keys. -/
def members (s : Settings) : List (String × Json) :=
  [(Key.style.name, .str s.style.name),
    (Key.maxPropositions.name, .int s.maxPropositions),
    (Key.maxOperators.name, .int s.maxOperators),
    (Key.trueGlyph.name, s.trueGlyph),
    (Key.falseGlyph.name, s.falseGlyph)]

def default : Settings := {}

/-- The settings given by members with their keys; what is not given has its default. -/
def ofMembers (given : List (String × Json)) : Except SettingsError Settings := do
  checkNames (given.map (·.1))
  let value (key : Key) (default : Json) : Json := (Json.memberOf? given key.name).getD default
  let style ← readStyle (value .style (.str Settings.default.style.name))
  let maxPropositions ←
    readLimit .maxPropositions (value .maxPropositions (.int Settings.default.maxPropositions))
  let maxOperators ←
    readLimit .maxOperators (value .maxOperators (.int Settings.default.maxOperators))
  withGlyphs style maxPropositions maxOperators
    (value .trueGlyph Settings.default.trueGlyph) (value .falseGlyph Settings.default.falseGlyph)

/-- The settings with some members replaced. -/
def replace (s : Settings) (changes : List (String × Json)) : Except SettingsError Settings :=
  ofMembers (changes ++ s.members.filter fun m => (Json.memberOf? changes m.1).isNone)

/-- The settings in another style. -/
def withStyle (s : Settings) (style : Style) : Settings := { s with style := style }

def glyph (s : Settings) (b : Bool) : Json := if b then s.trueGlyph else s.falseGlyph

/-! ### Files of settings -/

/-- The content of the file that keeps the settings. -/
def fileContent (s : Settings) : String := (Json.obj s.members).pretty

/-- The settings that a file with the given content keeps. -/
def ofFile (content : String) : Except SettingsError Settings :=
  match Json.readFile content with
  | .error e => .error (.unreadable e)
  | .ok (.obj given) => ofMembers given
  | .ok value => .error (.notAnObject value)

end Settings

/-! ### Settings in the environment -/

/-- Variables and their values. -/
abbrev Environment := List (String × String)

namespace Environment

def value? (env : Environment) (name : String) : Option String :=
  (env.find? (·.1 = name)).map (·.2)

/-- The variable that a line sets: its name stands before the first equals sign. -/
def ofLine? (line : List Char) : Option (String × String) :=
  match line.dropWhile (· ≠ '=') with
  | [] => none
  | _ :: value => some (String.ofList (line.takeWhile (· ≠ '=')), String.ofList value)

/-- The variables that the lines of a text set; the last line for a variable comes first. -/
def ofLines (text : String) : Environment :=
  ((Text.lines text.toList).filterMap ofLine?).reverse

/-- Variables that are not set are taken from elsewhere. -/
def completedBy (env other : Environment) : Environment := env ++ other

end Environment

namespace Settings

/-- The text that a variable gives for a setting; an empty text gives nothing. -/
def given? (env : Environment) (key : Key) : Option String :=
  (env.value? key.variableName).filter (· ≠ "")

/-- The member that a variable gives for a setting that is a text. -/
def textMember (env : Environment) (key : Key) : List (String × Json) :=
  match given? env key with
  | none => []
  | some text => [(key.name, .str text)]

/-- The member that a variable gives for a setting that is an integer. -/
def integerMember (env : Environment) (key : Key) :
    Except SettingsError (List (String × Json)) :=
  match given? env key with
  | none => .ok []
  | some text =>
    match Text.integer? text with
    | some n => .ok [(key.name, .int n)]
    | none => .error (.notANumeral key text)

def ofEnvironment (env : Environment) : Except SettingsError Settings := do
  let maxPropositions ← integerMember env .maxPropositions
  let maxOperators ← integerMember env .maxOperators
  ofMembers (textMember env .style ++ maxPropositions ++ maxOperators ++
    textMember env .trueGlyph ++ textMember env .falseGlyph)

end Settings
end Sentential
