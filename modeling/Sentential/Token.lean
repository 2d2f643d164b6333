/-
# Tokens

A formula is made of tokens: atoms, which are names and the two literals `0` and `1`, parentheses
and the symbols of the connectives. A reserved symbol is tried first, the longer before the
shorter where one could stand inside the other; then a name, as long as it goes; then a literal.

A text is brought into its normal form, without blanks and in upper case, and then cut into tokens
from left to right. A character that belongs to no token becomes an atom of its own, so every text
has tokens; whether they make a formula is not decided here.

Key definitions: `Category`, `Token`, `Token.atStart?`, `Token.atIndex?`, `Token.normalForm`,
`Token.sequence`, `Token.ofText`.
-/
import Sentential.Connective
import Sentential.Text

namespace Sentential

/-- What a token is. -/
inductive Category
  | atom
  | opening
  | closing
  | connective (c : Connective)
  deriving DecidableEq, Repr, Inhabited

namespace Category

/-- The categories, atoms and parentheses before the connectives. -/
def all : List Category := [atom, opening, closing] ++ Connective.all.map connective

/-- The name of a category in messages. -/
def name : Category → String
  | atom => "ATOM"
  | opening => "LPAREN"
  | closing => "RPAREN"
  | connective c => c.name

def ofName? (s : String) : Option Category := all.find? (·.name = s)

/-- The token begins an operand. -/
def startsTerm : Category → Bool
  | atom | opening | connective .not => true
  | _ => false

/-- The token ends an operand. -/
def endsTerm : Category → Bool
  | atom | closing => true
  | _ => false

/-- The categories that may come next after a token, or at the beginning of a formula if there
is none: after the end of an operand whatever does not begin one, and otherwise what does. -/
def mayFollow (last : Option Category) : List Category :=
  all.filter fun next => next.startsTerm != last.any endsTerm

theorem mem_all (k : Category) : k ∈ all := by
  cases k with
  | connective c => exact List.mem_append_right _ (List.mem_map_of_mem c.mem_all)
  | atom | opening | closing => decide

theorem mem_mayFollow_iff {k : Category} {last : Option Category} :
    k ∈ mayFollow last ↔ k.startsTerm ≠ last.any endsTerm := by
  simp [mayFollow, mem_all]

end Category

/-- The truth value that a name stands for if it is a literal. -/
def literalValue? (name : String) : Option Bool :=
  if name = "0" then some false else if name = "1" then some true else none

/-- A token: what it is and the text it stands for. -/
structure Token where
  category : Category
  text : String
  deriving DecidableEq, Repr, Inhabited

namespace Token

def isLiteral (t : Token) : Bool := t.category == .atom && (literalValue? t.text).isSome

/-- The first character of the text of a token. -/
def initial (t : Token) : Char := t.text.toList.headD ' '

/-- A token as messages show it. -/
def describe (t : Token) : String :=
  "Token(" ++ t.category.name ++ ", " ++ Text.quoted t.text ++ ")"

def ofAtom (name : String) : Token := ⟨.atom, name⟩

def ofConnective (c : Connective) : Token := ⟨.connective c, Style.source.glyph c⟩

def opening : Token := ⟨.opening, "("⟩

def closing : Token := ⟨.closing, ")"⟩

/-- The reserved symbols in the order in which they are tried. -/
def reserved : List Token := [opening, closing] ++ Connective.all.map ofConnective

/-- A name may begin with this character. Names are made of ASCII characters only. -/
def isNameStart (c : Char) : Bool := c.isAlpha || c == '_'

/-- A name may go on with this character. -/
def isNameChar (c : Char) : Bool := c.isAlphanum || c == '_'

/-- The reserved symbol at the start of a text, and what is left. -/
def reserved? : List Char → Option (Token × List Char)
  | '(' :: cs => some (opening, cs)
  | ')' :: cs => some (closing, cs)
  | '!' :: cs => some (ofConnective .not, cs)
  | '<' :: '-' :: '>' :: cs => some (ofConnective .xnor, cs)
  | '-' :: '>' :: cs => some (ofConnective .implies, cs)
  | '&' :: '&' :: cs => some (ofConnective .and, cs)
  | '|' :: '|' :: cs => some (ofConnective .or, cs)
  | _ => none

/-- The atom at the start of a text, and what is left: the longest name, or one literal. -/
def atom? : List Char → Option (Token × List Char)
  | [] => none
  | c :: cs =>
    if isNameStart c then
      some (ofAtom (String.ofList (c :: cs.takeWhile isNameChar)), cs.dropWhile isNameChar)
    else if c = '0' ∨ c = '1' then some (ofAtom (String.ofList [c]), cs)
    else none

/-- The token at the start of a text, and what is left. -/
def atStart? (cs : List Char) : Option (Token × List Char) :=
  match reserved? cs with
  | some found => some found
  | none => atom? cs

/-- The token at an index of a text. A negative index counts from the end for the reserved
symbols, but not before the start, and stands for the start for atoms; past the end there is no
token. -/
def atIndex? (text : String) (index : Int) : Option Token :=
  let cs := text.toList
  let fromEnd := if index < 0 then index + cs.length else index
  match reserved? (cs.drop fromEnd.toNat) with
  | some (t, _) => some t
  | none => (atom? (cs.drop index.toNat)).map (·.1)

theorem reserved?_append {t : Token} (h : t ∈ reserved) (cs : List Char) :
    reserved? (t.text.toList ++ cs) = some (t, cs) := by
  simp only [reserved, Connective.all, List.map_cons, List.map_nil, List.cons_append,
    List.nil_append, List.mem_cons, List.not_mem_nil, or_false] at h
  rcases h with rfl | rfl | rfl | rfl | rfl | rfl | rfl <;> rfl

theorem eq_append_of_reserved? {cs rest : List Char} {t : Token}
    (h : reserved? cs = some (t, rest)) : cs = t.text.toList ++ rest ∧ t ∈ reserved := by
  unfold reserved? at h
  split at h <;> simp only [Option.some.injEq, Prod.mk.injEq, reduceCtorEq] at h <;>
    obtain ⟨rfl, rfl⟩ := h <;> exact ⟨rfl, by decide⟩

theorem eq_append_of_atom? {cs rest : List Char} {t : Token}
    (h : atom? cs = some (t, rest)) : cs = t.text.toList ++ rest ∧ t.text ≠ "" := by
  unfold atom? at h
  split at h
  · simp at h
  · next c cs =>
    split at h
    · simp only [Option.some.injEq, Prod.mk.injEq] at h
      obtain ⟨rfl, rfl⟩ := h
      simp [ofAtom]
    · split at h
      · simp only [Option.some.injEq, Prod.mk.injEq] at h
        obtain ⟨rfl, rfl⟩ := h
        simp [ofAtom]
      · simp at h

theorem eq_append_of_atStart? {cs rest : List Char} {t : Token}
    (h : atStart? cs = some (t, rest)) : cs = t.text.toList ++ rest ∧ t.text ≠ "" := by
  unfold atStart? at h
  split at h
  · next found hr =>
    obtain ⟨h1, h2⟩ := eq_append_of_reserved? (hr.trans h)
    refine ⟨h1, ?_⟩
    revert h2
    simp only [reserved, Connective.all, List.map_cons, List.map_nil, List.cons_append,
      List.nil_append, List.mem_cons, List.not_mem_nil, or_false]
    rintro (rfl | rfl | rfl | rfl | rfl | rfl | rfl) <;> decide
  · exact eq_append_of_atom? h

theorem length_lt_of_atStart? {cs rest : List Char} {t : Token}
    (h : atStart? cs = some (t, rest)) : rest.length < cs.length := by
  obtain ⟨rfl, hne⟩ := eq_append_of_atStart? h
  have : t.text.toList ≠ [] := fun h => hne (String.toList_eq_nil_iff.1 h)
  have := List.length_pos_iff.2 this
  simp only [List.length_append]
  omega

@[simp]
theorem atStart?_nil : atStart? [] = none := rfl

/-! ### The tokens of a text -/

/-- The text without blanks and in upper case. -/
def normalForm (cs : List Char) : List Char :=
  Text.upper (cs.filter fun c => !Text.isBlank c)

/-- The tokens of a text that has no blanks. -/
def sequence (cs : List Char) : List Token :=
  match _h : atStart? cs with
  | some (t, rest) => t :: sequence rest
  | none =>
    match cs with
    | [] => []
    | c :: rest => ofAtom (String.ofList [c]) :: sequence rest
termination_by cs.length
decreasing_by
  · exact length_lt_of_atStart? _h
  · simp

def ofText (text : String) : List Token := sequence (normalForm text.toList)

end Token
end Sentential
