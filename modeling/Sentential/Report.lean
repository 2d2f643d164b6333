/-
# Reports

A report is what is passed on of an analysis: the text, the formula as it is shown, the verdict
and the table with its headers and rows. A report is written as a JSON object whose members come
in a fixed order.

A report is read from a JSON text. Members that reports do not have are passed over, and those
that have a default may be left out. Texts and lists must be just that. A truth value may also be
a number zero or one or one of a few words, and a position may also be written as a truth value, a
floating-point number without fraction or a text that holds an integer. A text with values that
are nested too deep holds no report, nor does one in which an escape gives half of a pair of code
units alone.

Key definitions: `Report`, `Report.ofAnalysis`, `Report.toJson`, `Report.readTruth?`,
`Report.readInt?`, `Report.ofJson?`, `Report.read?`.
-/
import Sentential.Expression

namespace Sentential

/-- The verdict in a report. -/
structure Report.Validation where
  valid : Bool
  error : Option String := none
  position : Option Int := none
  deriving DecidableEq, Repr

/-- The table in a report. -/
structure Report.Sheet where
  propositions : List String
  headers : List String
  rows : List (List Bool)
  deriving DecidableEq, Repr

/-- A report on a text. -/
structure Report where
  formula : String
  preview : String := ""
  validation : Report.Validation
  table : Option Report.Sheet := none
  deriving DecidableEq, Repr

namespace Report

/-- A verdict as reports have it. -/
def Validation.ofVerdict (v : Verdict) : Validation :=
  ⟨v.isAccepted, v.message?, v.position?.map Int.ofNat⟩

/-- A table as reports have it. -/
def Sheet.ofTable (t : Table) : Sheet := ⟨t.propositions, t.headers, t.rows?.getD []⟩

def ofAnalysis (a : Analysis) : Report :=
  ⟨a.text, a.preview, .ofVerdict a.verdict, a.table.map Sheet.ofTable⟩

/-- A value that may be missing. -/
def optional {α : Type} (toJson : α → Json) : Option α → Json
  | none => .null
  | some a => toJson a

def texts (names : List String) : Json := .arr (names.map .str)

def Validation.toJson (v : Validation) : Json :=
  .obj [("valid", .bool v.valid), ("error", optional .str v.error),
    ("position", optional .int v.position)]

def Sheet.toJson (s : Sheet) : Json :=
  .obj [("propositions", texts s.propositions), ("headers", texts s.headers),
    ("rows", .arr (s.rows.map fun row => .arr (row.map .bool)))]

/-- The report as an object. -/
def toJson (r : Report) : Json :=
  .obj [("formula", .str r.formula), ("preview", .str r.preview),
    ("validation", r.validation.toJson), ("table", optional Sheet.toJson r.table)]

/-! ### Reading -/

/-- The words for the two truth values, in lower case. -/
def truthWords : List (String × Bool) :=
  [("0", false), ("off", false), ("f", false), ("false", false), ("n", false), ("no", false),
    ("1", true), ("on", true), ("t", true), ("true", true), ("y", true), ("yes", true)]

/-- A number that stands for a truth value. -/
def truthOfInt? (n : Int) : Option Bool :=
  if n = 0 then some false else if n = 1 then some true else none

/-- The integer that a floating-point number stands for, within 64 bits. -/
def intOfFloat? (x : Binary64) : Option Int :=
  x.integer?.filter fun n => -(Int.pow 2 63) < n && n < Int.pow 2 63

def readTruth? : Json → Option Bool
  | .bool b => some b
  | .int n => truthOfInt? n
  | .float x => (intOfFloat? x).bind truthOfInt?
  | .str s =>
    let word := String.ofList (s.toList.map Char.toLower)
    (truthWords.find? (·.1 = word)).map (·.2)
  | _ => none

/-- A text without a decimal point and the zeros after it, if it ends in them; there must be at
least one zero. -/
def dropZeroFraction (cs : List Char) : List Char :=
  match cs.dropWhile (· ≠ '.') with
  | '.' :: '0' :: zeros => if zeros.all (· = '0') then cs.takeWhile (· ≠ '.') else cs
  | _ => cs

/-- Reads digits of ASCII, with single underscores between them. -/
def readDigits? (cs : List Char) : Option Nat :=
  if cs.all (·.toNat < 128) then Text.natural? cs else none

/-- Reads an integer from a text: blanks around it, perhaps a sign, digits, which may begin with
zeros, and perhaps a decimal point with zeros behind it. -/
def readIntText? (cs : List Char) : Option Int :=
  match dropZeroFraction (Text.trim Text.isPadding cs) with
  | '-' :: digits => (readDigits? digits).map fun n => -(n : Int)
  | '+' :: digits => (readDigits? digits).map Int.ofNat
  | digits => (readDigits? digits).map Int.ofNat

def readInt? : Json → Option Int
  | .int n => some n
  | .bool b => some (if b then 1 else 0)
  | .float x => intOfFloat? x
  | .str s => readIntText? s.toList
  | _ => none

def readString? : Json → Option String
  | .str s => some s
  | _ => none

def readList? {α : Type} (read? : Json → Option α) : Json → Option (List α)
  | .arr xs => xs.mapM read?
  | _ => none

/-- Reads a value that may be null. -/
def readOptional? {α : Type} (read? : Json → Option α) : Json → Option (Option α)
  | .null => some none
  | j => (read? j).map some

/-- Reads a member that must be there. -/
def required? {α : Type} (read? : Json → Option α) (j : Json) (name : String) : Option α :=
  (j.member? name).bind read?

/-- Reads a member that has a default. -/
def withDefault? {α : Type} (default : α) (read? : Json → Option α) (j : Json) (name : String) :
    Option α :=
  match j.member? name with
  | none => some default
  | some value => read? value

def Validation.ofJson? (j : Json) : Option Validation := do
  let valid ← required? readTruth? j "valid"
  let error ← withDefault? none (readOptional? readString?) j "error"
  let position ← withDefault? none (readOptional? readInt?) j "position"
  return ⟨valid, error, position⟩

def Sheet.ofJson? (j : Json) : Option Sheet := do
  let propositions ← required? (readList? readString?) j "propositions"
  let headers ← required? (readList? readString?) j "headers"
  let rows ← required? (readList? (readList? readTruth?)) j "rows"
  return ⟨propositions, headers, rows⟩

/-- The report that a value stands for. -/
def ofJson? (j : Json) : Option Report := do
  let formula ← required? readString? j "formula"
  let preview ← withDefault? "" readString? j "preview"
  let validation ← required? Validation.ofJson? j "validation"
  let table ← withDefault? none (readOptional? Sheet.ofJson?) j "table"
  return ⟨formula, preview, validation, table⟩

/-- How deep arrays and objects that hold something may be nested. -/
def depthLimit : Nat := 200

/-- The report that a text holds. Halves of pairs must not stand alone in the text. -/
def read? (content : String) : Option Report :=
  match Json.read content.toList with
  | .ok j =>
    if Json.hasLoneHalf content.toList || depthLimit < j.depth then none else ofJson? j
  | .error _ => none

end Report
end Sentential
