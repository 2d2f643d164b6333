/-
# Expressions and analyses

An expression is a text that is read as a formula when a question first needs the formula, with
the text and the limit that it has then. What has been read is kept, also if it is that the text
is blank; a failure is not kept. The text and the limit may be changed later, but the questions
about the formula are still answered for the formula that was kept, while those about the text
are answered for the text as it stands.

An analysis takes a text all the way: it is checked, read, shown in the style of the settings and
tabulated. A blank text is well formed and has an empty table. A text that is rejected has no
table, whatever its size; an accepted one may still exceed a limit of the settings.

Key definitions: `Expression`, `Expression.tree`, `Expression.Request`, `Expression.Answer`,
`Expression.step`, `Expression.run`, `Analysis`, `Analysis.ofText`.
-/
import Sentential.Settings
import Sentential.Verdict

namespace Sentential

/-- Why a question about a formula has no answer. -/
inductive Failure
  | parse (e : ParseError)
  | table (e : TableError)
  deriving DecidableEq, Repr

def Failure.message : Failure → String
  | parse e => e.message
  | table e => e.message

/-- A text with a limit on its formula, and the formula once it has been read. -/
structure Expression where
  text : String
  limit : Int := Formula.defaultLimit
  kept : Option (Option Formula) := none
  deriving DecidableEq, Repr

namespace Expression

/-- The text holds nothing but blanks. -/
def isBlank (text : String) : Bool := text.toList.all Text.isBlank

/-- The formula of a text; a blank text has none. -/
def read (limit : Int) (text : String) : Except ParseError (Option Formula) :=
  if isBlank text then .ok none else Formula.ofText limit text

/-- The formula of the expression, which is kept from then on. -/
def tree (e : Expression) : Except ParseError (Option Formula × Expression) :=
  match e.kept with
  | some root => .ok (root, e)
  | none => (read e.limit e.text).map fun root => (root, { e with kept := some root })

/-- A formula in a style, or nothing if there is none. -/
def renderRoot (style : Style) (root : Option Formula) : String :=
  (root.map (Formula.render style)).getD ""

/-- A formula on its own in a style, or nothing if there is none. -/
def displayRoot (style : Style) (root : Option Formula) : String :=
  (root.map (Formula.display style)).getD ""

/-- A short description of an expression. -/
def describe (e : Expression) : String := "BooleanExpression(" ++ Text.quoted e.text ++ ")"

/-- What an expression can be asked for or told. -/
inductive Request
  | setText (text : String)
  | setLimit (limit : Int)
  | check
  | isBlank
  | describe
  | tree
  | propositions
  | operations (style : Style)
  | render (style : Style)
  | display (style : Style)
  | table (style : Style) (limit : Int)
  deriving DecidableEq, Repr

inductive Answer
  | done
  | verdict (v : Verdict)
  | flag (b : Bool)
  | text (s : String)
  | tree (root : Option Formula)
  | names (names : List String)
  | operations (ops : List Operation)
  | table (t : Table)
  deriving DecidableEq, Repr

/-- The answer to a request that is about the formula. -/
def answerFor (root : Option Formula) : Request → Except Failure Answer
  | .tree => .ok (.tree root)
  | .propositions => .ok (.names ((root.map Formula.propositions).getD []))
  | .operations style => .ok (.operations ((root.map (Formula.operations style)).getD []))
  | .render style => .ok (.text (renderRoot style root))
  | .display style => .ok (.text (displayRoot style root))
  | .table style limit => ((Table.ofRoot style limit root).map .table).mapError .table
  | _ => .ok .done

/-- Answers a request; the second part is the expression after it. -/
def step (e : Expression) (r : Request) : Except Failure Answer × Expression :=
  match r with
  | .setText text => (.ok .done, { e with text := text })
  | .setLimit limit => (.ok .done, { e with limit := limit })
  | .check => (.ok (.verdict (Verdict.ofText e.text)), e)
  | .isBlank => (.ok (.flag (isBlank e.text)), e)
  | .describe => (.ok (.text e.describe), e)
  | r =>
    match e.tree with
    | .error cause => (.error (.parse cause), e)
    | .ok (root, e) => (answerFor root r, e)

/-- The answers to several requests, one after the other. -/
def run (e : Expression) : List Request → List (Except Failure Answer)
  | [] => []
  | r :: rs => (e.step r).1 :: run (e.step r).2 rs

end Expression

/-! ### Analyses -/

/-- What is known about a text: the verdict on it, and if it is accepted its table and its
formula in the style of the settings. -/
structure Analysis where
  text : String
  verdict : Verdict
  table : Option Table
  preview : String
  deriving DecidableEq, Repr

namespace Analysis

/-- There is neither a problem nor a table to show. -/
def isEmpty (a : Analysis) : Bool := a.verdict.isAccepted && a.table.all Table.isEmpty

def ofText (s : Settings) (text : String) : Except Failure Analysis :=
  if Expression.isBlank text then do
    let table ← (Table.ofRoot s.style Table.defaultLimit none).mapError Failure.table
    return ⟨text, .accepted, some table, ""⟩
  else
    match Verdict.ofText text with
    | .accepted => do
      let root ← (Expression.read s.maxOperators text).mapError Failure.parse
      let table ← (Table.ofRoot s.style s.maxPropositions root).mapError Failure.table
      return ⟨text, .accepted, some table, Expression.displayRoot s.style root⟩
    | rejection => .ok ⟨text, rejection, none, ""⟩

end Analysis
end Sentential
