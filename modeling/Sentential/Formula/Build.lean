/-
# Building formulas

A formula is built from its tokens. The first step takes the parentheses out of the token list:
what stands between a pair of them becomes one item. The groups that are still open are kept on a
stack, the innermost first. Then each group is made into a formula, from the inside out.

Within a group, a formula is read in steps on a list of terms, which are formulas that have been
built and connectives that have not been used. Each negation is joined to the term after it. Then
the connectives with two operands are joined to the formulas on both sides, in three passes; in
each pass the first connective of the pass is joined, and the search begins anew, so that chains
are grouped to the left. In the end one formula must remain.

The number of connectives and opening parentheses is limited, which bounds the depth of the
formula; the limit is checked before anything else, but a list without tokens is blank whatever
the limit.

Key definitions: `Item`, `Item.flatten`, `Item.groups`, `Term`, `Malformed`, `Term.negations`,
`Term.joinFirst`, `Term.join`, `Term.reduce`, `ParseError`, `Formula.weight`, `Formula.ofItems`,
`Formula.ofTokens`, `Formula.ofText`.
-/
import Sentential.Formula

namespace Sentential

/-! ### Groups -/

/-- A token that is no parenthesis, or what stands between a pair of parentheses. -/
inductive Item
  | token (t : Token)
  | group (items : List Item)
  deriving Repr

/-- Why parentheses do not match. -/
inductive GroupError
  | unopened
  | unclosed
  deriving DecidableEq, Repr

def GroupError.message : GroupError → String
  | unopened => "Parentesis ')' sin abrir"
  | unclosed => "Parentesis '(' sin cerrar"

namespace Item

mutual
/-- The tokens of an item, a group standing between its parentheses. -/
def flatten : Item → List Token
  | token t => [t]
  | group items => Token.opening :: (flattenAll items ++ [Token.closing])

def flattenAll : List Item → List Token
  | [] => []
  | item :: items => flatten item ++ flattenAll items
end

/-- Gathers the items of a token list, when the groups in `outer` are still open around the
items in `inner`; both are kept in reverse order. -/
def gather (outer : List (List Item)) (inner : List Item) :
    List Token → Except GroupError (List Item)
  | [] => if outer.isEmpty then .ok inner.reverse else .error .unclosed
  | t :: ts =>
    match t.category with
    | .opening => gather (inner :: outer) [] ts
    | .closing =>
      match outer with
      | [] => .error .unopened
      | around :: outer => gather outer (group inner.reverse :: around) ts
    | _ => gather outer (token t :: inner) ts

def groups (tokens : List Token) : Except GroupError (List Item) := gather [] [] tokens

end Item

/-! ### Terms -/

/-- A token whose operands are not joined to it yet, or a formula that has been built. -/
inductive Term
  | operator (t : Token)
  | formula (f : Formula)
  deriving DecidableEq, Repr, Inhabited

/-- Why a list of tokens is no formula. -/
inductive Malformed
  | unmatched (e : GroupError)
  | emptyGroup
  | danglingNegation
  | negationBefore (t : Token)
  | withoutOperands (t : Token)
  | irreducible (terms : List Term)
  deriving DecidableEq, Repr

namespace Term

def describe : Term → String
  | operator t => t.describe
  | formula f => f.describe

/-- The connective of a term that is not joined yet. -/
def connective? : Term → Option Connective
  | operator ⟨.connective c, _⟩ => some c
  | _ => none

/-- A formula behind a number of negations. -/
def negate : Nat → Formula → Formula
  | 0, f => f
  | count + 1, f => .unary .not (negate count f)

/-- Joins each negation to the term after it; `pending` negations stand before the terms. -/
def negations (pending : Nat) : List Term → Except Malformed (List Term)
  | [] => if pending = 0 then .ok [] else .error .danglingNegation
  | formula f :: terms => (negations 0 terms).map (formula (negate pending f) :: ·)
  | operator t :: terms =>
    if t.category = .connective .not then negations (pending + 1) terms
    else if pending = 0 then (negations 0 terms).map (operator t :: ·)
    else .error (.negationBefore t)

/-- Splits the terms at the first connective out of `cs`: the terms before it, its token, itself
and the terms after it. -/
def splitFirst (cs : List Connective) :
    List Term → Option (List Term × Token × Connective × List Term)
  | [] => none
  | formula f :: terms =>
    (splitFirst cs terms).map fun (before, found) => (formula f :: before, found)
  | operator t :: terms =>
    match t.category with
    | .connective c =>
      if c ∈ cs then some ([], t, c, terms)
      else (splitFirst cs terms).map fun (before, found) => (operator t :: before, found)
    | _ => (splitFirst cs terms).map fun (before, found) => (operator t :: before, found)

/-- Joins the first connective out of `cs` to the formulas on both sides of it; there is no
result when no such connective is left. -/
def joinFirst (cs : List Connective) (terms : List Term) :
    Except Malformed (Option (List Term)) :=
  match splitFirst cs terms with
  | none => .ok none
  | some (before, t, c, after) =>
    match before.getLast?, after with
    | some (formula l), formula r :: after =>
      .ok (some (before.dropLast ++ formula (.binary c l r) :: after))
    | _, _ => .error (.withoutOperands t)

theorem splitFirst_append {cs : List Connective} {terms before after : List Term} {t : Token}
    {c : Connective} (h : splitFirst cs terms = some (before, t, c, after)) :
    terms = before ++ operator t :: after := by
  induction terms generalizing before with
  | nil => simp [splitFirst] at h
  | cons term terms ih =>
    have step : ∀ x : Term,
        (splitFirst cs terms).map (fun (b, found) => (x :: b, found)) =
          some (before, t, c, after) → x :: terms = before ++ operator t :: after := by
      intro x hx
      obtain ⟨⟨b, found⟩, hs, he⟩ := Option.map_eq_some_iff.1 hx
      simp only [Prod.mk.injEq] at he
      obtain ⟨rfl, rfl⟩ := he
      rw [ih hs, List.cons_append]
    cases term with
    | formula f => exact step _ h
    | operator u =>
      rw [splitFirst] at h
      split at h
      · split at h
        · simp only [Option.some.injEq, Prod.mk.injEq] at h
          obtain ⟨rfl, rfl, _, rfl⟩ := h
          rfl
        · exact step _ h
      · exact step _ h

theorem length_lt_of_joinFirst {cs : List Connective} {terms shorter : List Term}
    (h : joinFirst cs terms = .ok (some shorter)) : shorter.length < terms.length := by
  unfold joinFirst at h
  split at h
  · simp at h
  · next before t c after hs =>
    split at h
    · next l r after hl =>
      simp only [Except.ok.injEq, Option.some.injEq] at h
      subst h
      rw [splitFirst_append hs]
      simp only [List.length_append, List.length_cons, List.length_dropLast]
      omega
    · simp at h

/-- Joins the connectives out of `cs`, always the first of them, until none is left. -/
def join (cs : List Connective) (terms : List Term) : Except Malformed (List Term) :=
  match _h : joinFirst cs terms with
  | .error e => .error e
  | .ok none => .ok terms
  | .ok (some shorter) => join cs shorter
termination_by terms.length
decreasing_by exact length_lt_of_joinFirst _h

/-- Joins the connectives of one pass after the other. -/
def joinPasses (passes : List (List Connective)) (terms : List Term) :
    Except Malformed (List Term) :=
  passes.foldlM (fun terms cs => join cs terms) terms

/-- The formula that the terms of a group make. -/
def reduce (terms : List Term) : Except Malformed Formula := do
  if terms.isEmpty then throw .emptyGroup
  match ← joinPasses Connective.binaryPasses (← negations 0 terms) with
  | [formula f] => return f
  | remaining => throw (.irreducible remaining)

end Term

def Malformed.message : Malformed → String
  | unmatched e => e.message
  | emptyGroup => "Grupo vacio: '()'"
  | danglingNegation => "'!' sin operando"
  | negationBefore t => "'!' seguido de " ++ t.describe
  | withoutOperands t => "Operador sin operandos: " ++ t.describe
  | irreducible terms =>
    "No se pudo reducir a un nodo: [" ++ String.intercalate ", " (terms.map Term.describe) ++ "]"

/-! ### Formulas -/

/-- Why a text cannot be made into a formula. -/
inductive ParseError
  | tooComplex (weight : Nat) (limit : Int)
  | malformed (cause : Malformed)
  deriving DecidableEq, Repr

def ParseError.message : ParseError → String
  | tooComplex weight limit =>
    toString weight ++ " operators and parentheses exceed the limit of " ++ toString limit
  | malformed cause => cause.message

namespace Formula

mutual
/-- The term that an item stands for. -/
def termOf : Item → Except Malformed Term
  | .token t =>
    .ok (match t.category with
      | .atom => .formula (.leaf t.text)
      | _ => .operator t)
  | .group items => do
    let terms ← termsOf items
    let f ← Term.reduce terms
    return .formula f

/-- The terms that the items of a group stand for. -/
def termsOf : List Item → Except Malformed (List Term)
  | [] => .ok []
  | item :: items => do
    let term ← termOf item
    let terms ← termsOf items
    return term :: terms
end

/-- The formula that the items of a group make. -/
def ofItems (items : List Item) : Except Malformed Formula := do
  Term.reduce (← termsOf items)

/-- The formula that a list of tokens makes, without a limit. -/
def build (tokens : List Token) : Except Malformed Formula :=
  match Item.groups tokens with
  | .error e => .error (.unmatched e)
  | .ok items => ofItems items

/-- The number of connectives and opening parentheses. -/
def weight (tokens : List Token) : Nat :=
  tokens.countP fun t => t.category != .atom && t.category != .closing

/-- The greatest number of connectives and opening parentheses, unless another is set. -/
def defaultLimit : Nat := 256

/-- The formula that a list of tokens makes, of at most `limit` connectives and opening
parentheses; a list without tokens makes none. -/
def ofTokens (limit : Int) (tokens : List Token) : Except ParseError (Option Formula) :=
  if tokens.isEmpty then .ok none
  else if limit < weight tokens then .error (.tooComplex (weight tokens) limit)
  else
    match build tokens with
    | .ok f => .ok (some f)
    | .error cause => .error (.malformed cause)

/-- The formula that a text makes; a blank text makes none. -/
def ofText (limit : Int) (text : String) : Except ParseError (Option Formula) :=
  ofTokens limit (Token.ofText text)

end Formula
end Sentential
