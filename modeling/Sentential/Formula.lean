/-
# Formulas

A formula is a tree: a leaf is a proposition or one of the literals `0` and `1`, and the other
nodes join one or two formulas with a connective. The formulas that are read from text have
negations with one operand and the other connectives with two; the type allows any connective at
any node, and `IsProper` singles out the former.

A formula is shown with the glyphs of a style and with parentheses where they are needed. An
operand is put in parentheses if its connective binds looser than the one it is an operand of, and
a right operand also if both are grouped in the same pass, since chains are grouped to the left.

The truth value of a formula under an assignment of truth values to names: literals have their own
value whatever the assignment says, and all operands are evaluated, from left to right, even where
one of them settles the result, so a proposition without a value is always an error.

Key definitions: `Formula`, `Formula.leaves`, `Formula.propositions`, `Formula.compounds`,
`Formula.IsProper`, `Formula.needsParentheses`, `Formula.render`, `Formula.display`, `Assignment`,
`EvalError`, `Formula.evaluate`.
-/
import Sentential.Token

namespace Sentential

/-- A formula of sentential logic. -/
inductive Formula
  | leaf (name : String)
  | unary (c : Connective) (operand : Formula)
  | binary (c : Connective) (left right : Formula)
  deriving DecidableEq, Repr, Inhabited

namespace Formula

/-- The truth value of a formula that is a literal. -/
def literal? : Formula → Option Bool
  | leaf name => literalValue? name
  | _ => none

/-- The connective at the root. -/
def connective? : Formula → Option Connective
  | leaf _ => none
  | unary c _ => some c
  | binary c _ _ => some c

/-- The written form of the tree, each connective before its operands. -/
def describe : Formula → String
  | leaf name => name
  | unary c x => c.name ++ "(" ++ x.describe ++ ")"
  | binary c l r => c.name ++ "(" ++ l.describe ++ ", " ++ r.describe ++ ")"

/-- The names of the leaves, from left to right. -/
def leaves : Formula → List String
  | leaf name => [name]
  | unary _ x => x.leaves
  | binary _ l r => l.leaves ++ r.leaves

/-- The names that are not literals, each at its first occurrence. -/
def distinctNames (names : List String) : List String :=
  (names.filter fun name => (literalValue? name).isNone).eraseDups

/-- The propositions of a formula in the order in which they first occur. -/
def propositions (f : Formula) : List String := distinctNames f.leaves

/-- The subformulas with a connective, operands before what they are operands of. -/
def compounds : Formula → List Formula
  | leaf _ => []
  | unary c x => x.compounds ++ [unary c x]
  | binary c l r => l.compounds ++ r.compounds ++ [binary c l r]

/-- The message where a formula is needed and there is none. -/
def absentMessage : String := "Nodo desconocido: <class 'NoneType'>"

/-- Every connective has as many operands as it takes. -/
def IsProper : Formula → Prop
  | leaf _ => True
  | unary c x => c = .not ∧ x.IsProper
  | binary c l r => c ≠ .not ∧ l.IsProper ∧ r.IsProper

/-! ### Rendering -/

/-- An operand of the connective `outer` needs parentheses. -/
def needsParentheses (operand : Formula) (outer : Connective) (onRight : Bool) : Bool :=
  match operand.connective? with
  | none => false
  | some inner => inner.bindsLooser outer || (onRight && inner.pass == outer.pass)

def parenthesize (needed : Bool) (s : String) : String :=
  if needed then "(" ++ s ++ ")" else s

/-- A formula in a style. -/
def render (style : Style) : Formula → String
  | leaf name => name
  | unary c x => style.glyph c ++ parenthesize (x.needsParentheses c false) (x.render style)
  | binary c l r =>
    parenthesize (l.needsParentheses c false) (l.render style) ++ " " ++ style.glyph c ++ " " ++
      parenthesize (r.needsParentheses c true) (r.render style)

/-- A formula on its own in a style: typeset formulas stand in mathematics mode. -/
def display (style : Style) (f : Formula) : String := style.display (f.render style)

end Formula

/-! ### Evaluating -/

/-- Truth values for some names. -/
abbrev Assignment := String → Option Bool

/-- Why a formula has no truth value. -/
inductive EvalError
  | unassigned (name : String)
  | apply (e : ApplyError)
  deriving DecidableEq, Repr

def EvalError.message : EvalError → String
  | unassigned name => "Proposicion '" ++ name ++ "' no tiene valor asignado"
  | apply e => e.message

namespace Formula

/-- The truth value of a name. -/
def valueOf (a : Assignment) (name : String) : Except EvalError Bool :=
  match literalValue? name with
  | some b => .ok b
  | none =>
    match a name with
    | some b => .ok b
    | none => .error (.unassigned name)

def evaluate (a : Assignment) : Formula → Except EvalError Bool
  | leaf name => valueOf a name
  | unary c x => do
    let v ← x.evaluate a
    (c.apply [v]).mapError .apply
  | binary c l r => do
    let v ← l.evaluate a
    let w ← r.evaluate a
    (c.apply [v, w]).mapError .apply

end Formula
end Sentential
