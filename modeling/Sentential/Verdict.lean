/-
# Checking a formula

Before a formula is built, its text is checked from left to right and the first fault is reported
with its place. The text is cut into pieces, tokens and stray characters, each with its position;
blanks between tokens are passed over. The state of the check is the number of open parentheses
and whether an operand has just ended: then a connective or a closing parenthesis may follow, and
otherwise the beginning of an operand. A formula must end after an operand, with all parentheses
closed.

Key definitions: `Piece`, `Piece.sequence`, `Problem`, `Verdict`, `Verdict.judge`,
`Verdict.ofText`.
-/
import Sentential.Token
import Sentential.Text

namespace Sentential

/-- A part of a text: a token, or a character that belongs to none. -/
inductive Lexeme
  | token (t : Token)
  | stray (c : Char)
  deriving DecidableEq, Repr

/-- A part of a text and the number of characters before it. -/
structure Piece where
  position : Nat
  lexeme : Lexeme
  deriving DecidableEq, Repr

/-- The pieces of a text whose first character stands at `position`. -/
def Piece.sequence (position : Nat) (cs : List Char) : List Piece :=
  match _h : Token.atStart? cs with
  | some (t, rest) => ⟨position, .token t⟩ :: sequence (position + t.text.length) rest
  | none =>
    match cs with
    | [] => []
    | c :: rest =>
      if Text.isBlank c then sequence (position + 1) rest
      else ⟨position, .stray c⟩ :: sequence (position + 1) rest
termination_by cs.length
decreasing_by
  · exact Token.length_lt_of_atStart? _h
  · simp
  · simp

/-- What is wrong with a formula. -/
inductive Problem
  | unknown (c : Char)
  | unexpected (c : Char)
  | ending
  | unclosed
  deriving DecidableEq, Repr

def Problem.message (position : Nat) : Problem → String
  | unknown c => "Unknown symbol '" ++ c.toString ++ "' at " ++ toString position ++ "."
  | unexpected c => "Unexpected symbol '" ++ c.toString ++ "' at " ++ toString position ++ "."
  | ending => "Unexpected expression ending."
  | unclosed => "Not all open parentheses were closed."

/-- The outcome of a check: the formula is well formed, or has its first problem at a position. -/
inductive Verdict
  | accepted
  | rejected (problem : Problem) (position : Nat)
  deriving DecidableEq, Repr

namespace Verdict

def isAccepted : Verdict → Bool
  | accepted => true
  | rejected _ _ => false

def message? : Verdict → Option String
  | accepted => none
  | rejected problem position => some (problem.message position)

def position? : Verdict → Option Nat
  | accepted => none
  | rejected _ position => some position

/-- The number of open parentheses after a token, unless it closes one too many. -/
def depthAfter : Category → Nat → Option Nat
  | .opening, depth => some (depth + 1)
  | .closing, 0 => none
  | .closing, depth + 1 => some depth
  | _, depth => some depth

/-- Checks the pieces of a text that ends at position `ending`, when `depth` parentheses are open
and `afterTerm` says whether an operand has just ended. -/
def judge (ending : Nat) : (depth : Nat) → (afterTerm : Bool) → List Piece → Verdict
  | depth, afterTerm, [] =>
    if afterTerm = false then rejected .ending ending
    else if 0 < depth then rejected .unclosed ending
    else accepted
  | _, _, ⟨position, .stray c⟩ :: _ => rejected (.unknown c) position
  | depth, afterTerm, ⟨position, .token t⟩ :: pieces =>
    match depthAfter t.category depth with
    | none => rejected (.unexpected t.initial) position
    | some depth =>
      if t.category.startsTerm = afterTerm then rejected (.unexpected t.initial) position
      else judge ending depth t.category.endsTerm pieces

def ofText (text : String) : Verdict :=
  let cs := text.toList
  judge cs.length 0 false (Piece.sequence 0 cs)

end Verdict
end Sentential
