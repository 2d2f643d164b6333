/-
# Connectives and their glyphs

The five connectives of sentential logic, from the one that binds tightest to the loosest. The
rank is the place in this order; the pass says which connectives are grouped together, from left
to right, when a formula is read: the biconditional and the conditional share one.

A connective is applied to a list of truth values. Negation looks at the first value only, the
others at two; a value may also be unknown, and then the result is known only where the known
values settle it in the way that the reading from left to right finds first.

A formula is shown in one of three styles: with the symbols in which it is typed, with the signs
of mathematical logic, or with commands for typesetting.

Key definitions: `Connective`, `Connective.rank`, `Connective.pass`, `Connective.value`,
`Connective.apply`, `Connective.applyPartial`, `Style`, `Style.glyph`, `Style.mathMode`.
-/
namespace Sentential

/-- A connective, in the order of its binding strength. -/
inductive Connective
  | not
  | xnor
  | implies
  | and
  | or
  deriving DecidableEq, Repr, Inhabited

/-- Why a connective cannot be applied to some values. -/
inductive ApplyError
  | missing
  | surplus (given : Nat)
  | needsTwo (connective : Connective)
  deriving DecidableEq, Repr

namespace Connective

/-- The connectives from the tightest to the loosest. -/
def all : List Connective := [not, xnor, implies, and, or]

/-- The name of a connective in messages and in the written form of a tree. -/
def name : Connective → String
  | not => "NOT"
  | xnor => "XNOR"
  | implies => "IMPLIES"
  | and => "AND"
  | or => "OR"

/-- The place in the order of binding strength, zero being the tightest. -/
def rank : Connective → Nat
  | not => 0
  | xnor => 1
  | implies => 2
  | and => 3
  | or => 4

/-- The pass in which the connective is grouped when a formula is read. -/
def pass : Connective → Nat
  | not => 0
  | xnor => 1
  | implies => 1
  | and => 2
  | or => 3

/-- The number of operands that the connective takes. -/
def arity : Connective → Nat
  | not => 1
  | _ => 2

def bindsLooser (c other : Connective) : Bool := other.rank < c.rank

/-- The passes in which the connectives with two operands are grouped. -/
def binaryPasses : List (List Connective) := [[xnor, implies], [and], [or]]

/-- The truth value for two operands; negation looks at the first one only. -/
def value : Connective → Bool → Bool → Bool
  | not, a, _ => !a
  | xnor, a, b => a == b
  | implies, a, b => !a || b
  | and, a, b => a && b
  | or, a, b => a || b

def apply (c : Connective) : List Bool → Except ApplyError Bool
  | [] => .error .missing
  | [a] => if c = not then .ok (!a) else .error (.needsTwo c)
  | [a, b] => .ok (c.value a b)
  | values => .error (.surplus values.length)

/-- The value for two operands of which the first may be unknown. -/
def partialValue : Connective → Option Bool → Bool → Option Bool
  | c, some a, b => some (c.value a b)
  | not, none, _ => some true
  | xnor, none, _ => some false
  | implies, none, _ => some true
  | and, none, _ => none
  | or, none, b => some b

/-- Applies the connective to values some of which may be unknown. An unknown value counts as
false where it is negated and as different from both truth values where it is compared; a second
value is needed wherever there are two operands. -/
def applyPartial (c : Connective) : List (Option Bool) → Except ApplyError (Option Bool)
  | [] => .error .missing
  | [a] => if c = not then .ok (some !(a.getD false)) else .error (.needsTwo c)
  | [a, b] =>
    match c, b with
    | not, _ => .ok (some !(a.getD false))
    | c, none => .error (.needsTwo c)
    | c, some b => .ok (c.partialValue a b)
  | values => .error (.surplus values.length)

def ofName? (s : String) : Option Connective := all.find? (·.name = s)

theorem mem_all (c : Connective) : c ∈ all := by cases c <;> decide

theorem arity_eq_one_iff {c : Connective} : c.arity = 1 ↔ c = .not := by cases c <;> decide

theorem arity_eq_two_iff {c : Connective} : c.arity = 2 ↔ c ≠ .not := by cases c <;> decide

@[simp]
theorem ofName?_name (c : Connective) : ofName? c.name = some c := by cases c <;> decide

theorem applyPartial_map_some (c : Connective) (values : List Bool) :
    c.applyPartial (values.map some) = (c.apply values).map some := by
  match values with
  | [] => rfl
  | [a] => cases c <;> rfl
  | [a, b] => cases c <;> rfl
  | a :: b :: d :: values => simp [applyPartial, apply, Except.map]

end Connective

def ApplyError.message : ApplyError → String
  | missing => "Operator.apply() missing 1 required positional argument: 'a'"
  | surplus given =>
    "Operator.apply() takes from 2 to 3 positional arguments but " ++ toString (given + 1) ++
      " were given"
  | needsTwo c => c.name ++ " necesita dos operandos"

/-! ### Glyphs -/

/-- A set of glyphs for the connectives. -/
inductive Style
  | source
  | plain
  | latex
  deriving DecidableEq, Repr, Inhabited

namespace Style

/-- The styles in the order in which messages list them. -/
def all : List Style := [source, plain, latex]

/-- The name of a style in settings. -/
def name : Style → String
  | source => "source"
  | plain => "plain"
  | latex => "latex"

def ofName? (s : String) : Option Style := all.find? (·.name = s)

/-- The glyph of a connective. The typesetting command for negation ends in a space, which
separates it from a name after it. -/
def glyph : Style → Connective → String
  | source, .not => "!"
  | source, .xnor => "<->"
  | source, .implies => "->"
  | source, .and => "&&"
  | source, .or => "||"
  | plain, .not => "¬"
  | plain, .xnor => "⇔"
  | plain, .implies => "⇒"
  | plain, .and => "∧"
  | plain, .or => "∨"
  | latex, .not => "\\neg "
  | latex, .xnor => "\\Leftrightarrow"
  | latex, .implies => "\\Rightarrow"
  | latex, .and => "\\land"
  | latex, .or => "\\lor"

/-- Puts a text between the delimiters of typeset mathematics. -/
def mathMode (s : String) : String := "$" ++ s ++ "$"

/-- How a text stands on its own in a style: typeset text is put in mathematics mode. -/
def display (style : Style) (s : String) : String :=
  match style with
  | latex => mathMode s
  | _ => s

@[simp]
theorem ofName?_name (s : Style) : ofName? s.name = some s := by cases s <;> decide

end Style
end Sentential
