/-
# The grammar of formulas

Which formula a list of tokens stands for, said without an algorithm. The grammar has a grade for
each strength of binding: a primary is an atom or a formula in parentheses, a negation is a
primary behind any number of negation signs, and each of the three looser grades joins operands of
the next tighter grade in chains that are grouped to the left. The conditional and the
biconditional share a grade.

Only the category of a token counts, and of an atom its text, which becomes the name of the leaf.
From left to right, the leaves and the connectives of a derived formula are those of the tokens.

Key definitions: `Grade`, `Derives`, `Formula.connectives`, `Token.connectives`.
Key theorems: `Derives.mono`, `Derives.snoc`, `Derives.isProper`, `Derives.leaves_eq`,
`Derives.connectives_eq`.
-/
import Sentential.Formula

namespace Sentential

/-- The grades of the grammar, from the tightest to the loosest. -/
inductive Grade
  | primary
  | negation
  | conditional
  | conjunction
  | disjunction
  deriving DecidableEq, Repr

namespace Grade

/-- The connectives that are chained at a grade. -/
def connectives : Grade → List Connective
  | primary | negation => []
  | conditional => [.xnor, .implies]
  | conjunction => [.and]
  | disjunction => [.or]

/-- The grade of the operands in a chain; what is primary has nothing tighter. -/
def tighter : Grade → Grade
  | primary | negation => primary
  | conditional => negation
  | conjunction => conditional
  | disjunction => conjunction

/-- The place of a grade, zero being the tightest. -/
def place : Grade → Nat
  | primary => 0
  | negation => 1
  | conditional => 2
  | conjunction => 3
  | disjunction => 4

/-- What holds of the primaries and passes from the operands to the chain holds of every grade. -/
theorem climb {P : Grade → Prop} (primary : P primary) (step : ∀ g : Grade, P g.tighter → P g)
    (g : Grade) : P g := by
  have hn : P negation := step _ primary
  have hc : P conditional := step _ hn
  have ha : P conjunction := step _ hc
  cases g with
  | primary => exact primary
  | negation => exact hn
  | conditional => exact hc
  | conjunction => exact ha
  | disjunction => exact step _ ha

/-- A grade that is no looser than another is that one or no looser than its operands. -/
theorem eq_or_place_le {g k : Grade} (h : g.place ≤ k.place) : g = k ∨ g.place ≤ k.tighter.place := by
  cases g <;> cases k <;> revert h <;> decide

theorem tighter_place_le (g : Grade) : g.tighter.place ≤ g.place := by
  cases g <;> decide

end Grade

/-- The grade of what a connective makes. -/
def Connective.grade : Connective → Grade
  | .not => .negation
  | .xnor | .implies => .conditional
  | .and => .conjunction
  | .or => .disjunction

theorem Grade.mem_connectives {g : Grade} {c : Connective} :
    c ∈ g.connectives ↔ c ≠ .not ∧ c.grade = g := by
  cases g <;> cases c <;> decide

/-- The connectives of a formula from left to right: a negation stands before its operand, any other
connective between its two. -/
def Formula.connectives : Formula → List Connective
  | leaf _ => []
  | unary c x => c :: x.connectives
  | binary c l r => l.connectives ++ c :: r.connectives

namespace Token

/-- The connective that a token stands for. -/
def connective? (t : Token) : Option Connective :=
  match t.category with
  | .connective c => some c
  | _ => none

/-- The connectives among the tokens. -/
def connectives (ts : List Token) : List Connective := ts.filterMap connective?

variable {t : Token} {ts us : List Token} {c : Connective}

theorem connective?_eq_some_iff : t.connective? = some c ↔ t.category = .connective c := by
  unfold connective?
  split <;> simp_all

theorem connectives_append : connectives (ts ++ us) = connectives ts ++ connectives us :=
  List.filterMap_append

theorem connectives_cons (ht : t.category = .connective c) :
    connectives (t :: ts) = c :: connectives ts :=
  List.filterMap_cons_some (connective?_eq_some_iff.mpr ht)

theorem connectives_cons_of_forall_ne (ht : ∀ c, t.category ≠ .connective c) :
    connectives (t :: ts) = connectives ts := by
  refine List.filterMap_cons_none (Option.eq_none_iff_forall_ne_some.mpr fun c hc => ?_)
  exact ht c (connective?_eq_some_iff.mp hc)

end Token

/-- The tokens stand for the formula at the grade. -/
inductive Derives : Grade → List Token → Formula → Prop
  | atom {t : Token} (ht : t.category = .atom) : Derives .primary [t] (.leaf t.text)
  | group {o c : Token} {ts : List Token} {f : Formula} (ho : o.category = .opening)
      (hc : c.category = .closing) (h : Derives .disjunction ts f) :
      Derives .primary (o :: ts ++ [c]) f
  | negation {t : Token} {ts : List Token} {f : Formula} (ht : t.category = .connective .not)
      (h : Derives .negation ts f) : Derives .negation (t :: ts) (.unary .not f)
  | chain {g : Grade} {t : Token} {c : Connective} {ts us : List Token} {l r : Formula}
      (hc : c ∈ g.connectives) (ht : t.category = .connective c) (hl : Derives g ts l)
      (hr : Derives g.tighter us r) : Derives g (ts ++ t :: us) (.binary c l r)
  | tighter {g : Grade} {ts : List Token} {f : Formula} (h : Derives g.tighter ts f) :
      Derives g ts f

namespace Derives

variable {g g' : Grade} {ts us : List Token} {f r : Formula}

/-- What a grade derives, every looser grade derives. -/
theorem mono (h : Derives g ts f) (hg : g.place ≤ g'.place) : Derives g' ts f := by
  induction g' using Grade.climb with
  | primary =>
    have hp : g = .primary := by cases g <;> first | rfl | simp [Grade.place] at hg
    exact hp ▸ h
  | step k ih =>
    rcases Grade.eq_or_place_le hg with rfl | hle
    · exact h
    · exact .tighter (ih hle)

theorem to_disjunction (h : Derives g ts f) : Derives .disjunction ts f :=
  h.mono (by cases g <;> decide)

theorem ne_nil (h : Derives g ts f) : ts ≠ [] := by
  induction h with
  | atom | group | negation => simp
  | chain => simp
  | tighter _ ih => exact ih

/-- A chain goes on with one more connective and operand, whatever connectives stand in it: the
operand joins the end of the innermost chain that is loose enough. -/
theorem snoc {t : Token} {c : Connective} (h : Derives g ts f) (hne : c ≠ .not)
    (hc : c.grade.place ≤ g.place) (ht : t.category = .connective c)
    (hr : Derives .negation us r) : ∃ f', Derives g (ts ++ t :: us) f' := by
  have operand : ∀ k : Grade, c.grade = k → Derives k.tighter us r := fun k hk =>
    hr.mono (by subst hk; cases c <;> first | exact absurd rfl hne | decide)
  induction h with
  | atom | group | negation =>
    cases c <;> simp only [Connective.grade, Grade.place] at hc <;>
      first | exact absurd rfl hne | omega
  | @chain k t' c' ts us' l r' hc' ht' hl hr' ihl ihr =>
    by_cases hk : c.grade = k
    · exact ⟨_, .chain (Grade.mem_connectives.2 ⟨hne, hk⟩) ht (.chain hc' ht' hl hr')
        (operand k hk)⟩
    · obtain ⟨f', hf'⟩ := ihr ((Grade.eq_or_place_le hc).resolve_left hk)
      exact ⟨_, by simpa using Derives.chain hc' ht' hl hf'⟩
  | @tighter k ts f h ih =>
    by_cases hk : c.grade = k
    · exact ⟨_, .chain (Grade.mem_connectives.2 ⟨hne, hk⟩) ht (.tighter h) (operand k hk)⟩
    · obtain ⟨f', hf'⟩ := ih ((Grade.eq_or_place_le hc).resolve_left hk)
      exact ⟨f', .tighter hf'⟩

/-- In a derived formula every connective has as many operands as it takes. -/
theorem isProper (h : Derives g ts f) : f.IsProper := by
  induction h with
  | atom => trivial
  | group _ _ _ ih => exact ih
  | negation _ _ ih => exact ⟨rfl, ih⟩
  | chain hc _ _ _ ihl ihr => exact ⟨(Grade.mem_connectives.1 hc).1, ihl, ihr⟩
  | tighter _ ih => exact ih

/-- The leaves of a derived formula are the atoms among the tokens, in their order. -/
theorem leaves_eq (h : Derives g ts f) :
    f.leaves = (ts.filter (·.category = .atom)).map (·.text) := by
  induction h with
  | atom ht => simp [Formula.leaves, ht]
  | group ho hc _ ih => simp [ih, ho, hc]
  | negation ht _ ih => simp [Formula.leaves, ih, ht]
  | chain _ ht _ _ ihl ihr => simp [Formula.leaves, ihl, ihr, ht]
  | tighter _ ih => exact ih

/-- The connectives of a derived formula are those among the tokens, in their order. -/
theorem connectives_eq (h : Derives g ts f) : f.connectives = Token.connectives ts := by
  have skip : ∀ {t : Token} {ts : List Token} {k : Category}, t.category = k →
      (∀ c, k ≠ .connective c) → Token.connectives (t :: ts) = Token.connectives ts := by
    intro t ts k ht hk
    exact Token.connectives_cons_of_forall_ne fun c => ht ▸ hk c
  induction h with
  | atom ht =>
    rw [skip ht nofun]
    rfl
  | group ho hc _ ih =>
    rw [List.cons_append, skip ho nofun, Token.connectives_append, skip hc nofun, ih]
    exact (List.append_nil _).symm
  | negation ht _ ih => rw [Formula.connectives, Token.connectives_cons ht, ih]
  | chain _ ht _ _ ihl ihr =>
    rw [Formula.connectives, Token.connectives_append, Token.connectives_cons ht, ihl, ihr]
  | tighter _ ih => exact ih

end Derives
end Sentential
