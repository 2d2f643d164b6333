/-
# Operations and truth tables

Each subformula with a connective is an operation on columns of a table: its operands are
literals or columns, given by name, and its name, under which its own column is kept, is the
subformula as it is rendered. The operations of a formula come in an order in which every operand
has been computed before it is needed.

A table has a column for each proposition and one for each operation that has been added. With
`n` propositions it has `2 ^ n` rows, which count in binary: the first proposition is the most
significant digit of the number of the row, and changes slowest. A column is found by its name,
and adding an operation whose name is taken gives back the column that has the name.

Key definitions: `Operand`, `Operation`, `Operation.ofFormula`, `Formula.operations`, `Column`,
`Table`, `Table.proposition`, `Table.add`, `Table.ofRoot`, `Table.row?`, `Table.rows?`.
-/
import Sentential.Formula

namespace Sentential

/-- What an operation works on: a literal, or the column with a name. -/
inductive Operand
  | literal (b : Bool)
  | column (name : String)
  deriving DecidableEq, Repr, Inhabited

/-- A named operation on columns. -/
structure Operation where
  name : String
  connective : Connective
  operands : List Operand
  deriving DecidableEq, Repr, Inhabited

def Operand.ofFormula (style : Style) (f : Formula) : Operand :=
  match f.literal? with
  | some b => literal b
  | none => column (f.render style)

namespace Formula

/-- The operands of the connective at the root. -/
def operands : Formula → List Formula
  | leaf _ => []
  | unary _ x => [x]
  | binary _ l r => [l, r]

/-- The operation that computes a formula from its operands; a leaf needs none. -/
def operation? (style : Style) (f : Formula) : Option Operation :=
  f.connective?.map fun c => ⟨f.render style, c, f.operands.map (Operand.ofFormula style)⟩

/-- The operations that compute a formula, one for each occurrence of a compound subformula. -/
def operations (style : Style) (f : Formula) : List Operation :=
  f.compounds.filterMap (operation? style)

end Formula

/-! ### Tables -/

/-- A column: its name, and a truth value for each row. -/
structure Column where
  name : String
  values : Array Bool
  deriving DecidableEq, Repr, Inhabited

/-- A truth table; its style is that in which the columns are named. -/
structure Table where
  style : Style
  propositions : List String
  columns : List Column
  deriving DecidableEq, Repr

/-- Why the column of an operation cannot be computed. -/
inductive ColumnError
  | missing (name : String)
  | apply (e : ApplyError)
  deriving DecidableEq, Repr

/-- Why there is no table. -/
inductive TableError
  | tooManyPropositions (count : Nat) (limit : Int)
  | column (e : ColumnError)
  deriving DecidableEq, Repr

def ColumnError.message : ColumnError → String
  | missing name => "La columna '" ++ name ++ "' no existe todavia"
  | apply e => e.message

def TableError.message : TableError → String
  | tooManyPropositions count limit =>
    toString count ++ " propositions would need " ++ toString (Nat.pow 2 count) ++
      " rows (limit is " ++ toString limit ++ ")"
  | column e => e.message

/-- The value of a column in a row; a negative number counts rows from the end. -/
def Column.value? (column : Column) (row : Int) : Option Bool :=
  let row := if row < 0 then row + column.values.size else row
  if row < 0 then none else column.values[row.toNat]?

namespace Table

/-- The greatest number of propositions, unless another is set. -/
def defaultLimit : Nat := 16

/-- The number of rows that the propositions need. -/
def height (t : Table) : Nat := Nat.pow 2 t.propositions.length

/-- A table without columns has nothing to show. -/
def isEmpty (t : Table) : Bool := t.columns.isEmpty

/-- The number of rows to show. -/
def rowCount (t : Table) : Nat := if t.isEmpty then 0 else t.height

def column? (t : Table) (name : String) : Option Column := t.columns.find? (·.name = name)

/-- The name of each column as a header in the style of the table. -/
def headers (t : Table) : List String := t.columns.map fun c => t.style.display c.name

/-- The column of the proposition that has `after` propositions after it in a table of `height`
rows: it is false in the first half of each period and true in the second. -/
def proposition (height after : Nat) (name : String) : Column :=
  ⟨name, Array.ofFn fun row : Fin height =>
    decide (Nat.pow 2 after ≤ row.val % Nat.pow 2 (after + 1))⟩

/-- The columns of the propositions of a table of `height` rows. -/
def propositionColumns (height : Nat) : List String → List Column
  | [] => []
  | name :: names => proposition height names.length name :: propositionColumns height names

/-- The values that an operand takes, row by row. -/
def operandValues (t : Table) : Operand → Except ColumnError (Array Bool)
  | .literal b => .ok (Array.replicate t.height b)
  | .column name =>
    match t.column? name with
    | some column => .ok column.values
    | none => .error (.missing name)

/-- The number of rows in which all operands have a value. -/
def sharedHeight : List (Array Bool) → Nat
  | [] => 0
  | [values] => values.size
  | values :: others => min values.size (sharedHeight others)

/-- Applies a connective to the values of its operands, row by row. -/
def applyRows (c : Connective) (operands : List (Array Bool)) :
    Except ColumnError (Array Bool) :=
  ((List.range (sharedHeight operands)).mapM fun row =>
    (c.apply (operands.map fun values => values.getD row false)).mapError ColumnError.apply).map
    List.toArray

def compute (t : Table) (op : Operation) : Except ColumnError Column := do
  let operands ← op.operands.mapM t.operandValues
  let values ← applyRows op.connective operands
  return ⟨op.name, values⟩

/-- Adds the column of an operation, and gives the column with its name. -/
def add (t : Table) (op : Operation) : Except ColumnError (Table × Column) :=
  match t.column? op.name with
  | some column => .ok (t, column)
  | none => do
    let column ← t.compute op
    return ({ t with columns := t.columns ++ [column] }, column)

/-- Adds the columns of several operations. -/
def addAll (t : Table) (ops : List Operation) : Except ColumnError Table :=
  ops.foldlM (fun t op => (t.add op).map (·.1)) t

/-- The table of a formula, or the empty table if there is none. -/
def ofRoot (style : Style) (limit : Int) (root : Option Formula) : Except TableError Table :=
  let propositions := (root.map Formula.propositions).getD []
  if limit < propositions.length then .error (.tooManyPropositions propositions.length limit)
  else
    let start : Table :=
      ⟨style, propositions, propositionColumns (Nat.pow 2 propositions.length) propositions⟩
    (start.addAll ((root.map (Formula.operations style)).getD [])).mapError .column

/-- The values of all columns in a row, if all have one; a negative number counts from the end. -/
def row? (t : Table) (row : Int) : Option (List Bool) := t.columns.mapM (·.value? row)

/-- All rows, if every column reaches down to the last. -/
def rows? (t : Table) : Option (List (List Bool)) :=
  (List.range t.rowCount).mapM fun row : Nat => t.row? row

/-- A short description of a table. -/
def describe (t : Table) : String :=
  "TruthTable(columns=[" ++
    String.intercalate ", " (t.columns.map fun c => Text.quoted c.name) ++ "], rows=" ++
    toString t.rowCount ++ ")"

end Table
end Sentential
