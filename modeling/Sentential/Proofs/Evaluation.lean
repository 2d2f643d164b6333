/-
# What an evaluation needs

A formula is evaluated from its leaves, and its propositions are gathered from its leaves; both
walks pass over the same ones, those that are literals. So the propositions are just the names that
an evaluation asks the assignment for. It fails exactly if one of them has no value, and then at the
first, since every operand is evaluated, in order, also where another one settles the result. What
the assignment says of other names, and of literals, makes no difference.

Key definitions: `Assignment.missing?`.
Key theorems: `find?_eraseDups`, `Assignment.missing?_propositions`,
`Formula.evaluate_of_missing`, `Formula.evaluate_eq`, `Formula.evaluate_congr`,
`Formula.domain_of_evaluation`.
-/
import Sentential.Proofs.Subformulas

namespace Sentential

/-- Repetitions do not matter for what is found first. -/
theorem find?_eraseDups {α : Type} [BEq α] [LawfulBEq α] (p : α → Bool) (xs : List α) :
    xs.eraseDups.find? p = xs.find? p := by
  -- from the right end, where a repetition is dropped
  induction xs using List.reverseRecOn with
  | nil => rfl
  | append_singleton xs x ih =>
    rw [List.find?_append, ← ih]
    by_cases hx : x ∈ xs
    · rw [eraseDups_concat_of_mem hx]
      cases hp : xs.eraseDups.find? p with
      | some y => rfl
      | none =>
        have hnot := List.find?_eq_none.mp hp x (List.mem_eraseDups.mpr hx)
        rw [List.find?_cons_of_neg hnot]
        rfl
    · rw [eraseDups_concat_of_notMem hx, List.find?_append]

namespace Assignment

/-- The first of the names that has no value. -/
def missing? (a : Assignment) (names : List String) : Option String :=
  names.find? fun name => (a name).isNone

variable {a : Assignment} {names : List String} {name : String}

theorem missing?_eq_none_iff : a.missing? names = none ↔ ∀ name ∈ names, a name ≠ none := by
  simp [missing?]

theorem mem_of_missing? (h : a.missing? names = some name) : name ∈ names ∧ a name = none :=
  ⟨List.mem_of_find?_eq_some h, by simpa using List.find?_some h⟩

/-- The propositions are the leaves that are no literals. -/
theorem missing?_propositions (a : Assignment) (f : Formula) : a.missing? f.propositions =
    f.leaves.find? fun name => literalValue? name = none ∧ a name = none := by
  rw [missing?, Formula.propositions, Formula.distinctNames, find?_eraseDups, List.find?_filter]
  simp

theorem missing?_propositions_binary (a : Assignment) (c : Connective) (l r : Formula) :
    a.missing? (Formula.binary c l r).propositions =
      (a.missing? l.propositions).or (a.missing? r.propositions) := by
  simp only [missing?_propositions, Formula.leaves, List.find?_append]

end Assignment

namespace Formula

variable {f : Formula} {a a' : Assignment} {name : String}

theorem evaluate_of_missing_eq_none (h : f.IsProper) (ha : a.missing? f.propositions = none) :
    f.evaluate a = .ok (f.holds fun name => (a name).getD false) := by
  refine evaluate_eq_holds h fun name hn => ?_
  obtain ⟨b, hb⟩ := Option.ne_none_iff_exists'.mp (Assignment.missing?_eq_none_iff.mp ha name hn)
  rw [hb]
  rfl

/-- Evaluation stops at the first proposition without a value. -/
theorem evaluate_of_missing (h : f.IsProper) (ha : a.missing? f.propositions = some name) :
    f.evaluate a = .error (.unassigned name) := by
  induction f with
  | leaf other =>
    obtain ⟨hn, hnone⟩ := Assignment.mem_of_missing? ha
    obtain ⟨hm, hl⟩ := mem_propositions.mp hn
    obtain rfl := List.mem_singleton.mp hm
    rw [evaluate, valueOf, hl]
    simp only [hnone]
  | unary c x ih =>
    rw [evaluate, ih h.2 ha]
    rfl
  | binary c l r ihl ihr =>
    rw [Assignment.missing?_propositions_binary, Option.or_eq_some_iff] at ha
    rcases ha with hl | ⟨hl, hr⟩
    · rw [evaluate, ihl h.2.1 hl]
      rfl
    · rw [evaluate, evaluate_of_missing_eq_none h.2.1 hl, ihr h.2.2 hr]
      rfl

/-- All that evaluation can come to. -/
theorem evaluate_eq (h : f.IsProper) (a : Assignment) : f.evaluate a =
    match a.missing? f.propositions with
    | some name => .error (.unassigned name)
    | none => .ok (f.holds fun name => (a name).getD false) := by
  split
  · next name ha => exact evaluate_of_missing h ha
  · next ha => exact evaluate_of_missing_eq_none h ha

/-- Only the leaves that are no literals are looked up. -/
theorem evaluate_congr (h : ∀ name ∈ f.propositions, a' name = a name) :
    f.evaluate a' = f.evaluate a := by
  induction f with
  | leaf name =>
    rw [evaluate, evaluate, valueOf, valueOf]
    cases hl : literalValue? name with
    | some b => rfl
    | none => rw [h name (mem_propositions.mpr ⟨List.mem_singleton_self name, hl⟩)]
  | unary c x ih => rw [evaluate, evaluate, ih h]
  | binary c l r ihl ihr =>
    have hl : l.propositions ⊆ (binary c l r).propositions :=
      propositions_subset (mem_subformulas_of_operand (by simp [operands]))
    have hr : r.propositions ⊆ (binary c l r).propositions :=
      propositions_subset (mem_subformulas_of_operand (by simp [operands]))
    rw [evaluate, evaluate, ihl fun name hn => h name (hl hn), ihr fun name hn => h name (hr hn)]

/-- **The propositions are what an evaluation needs.** If each connective has as many operands as it
takes, evaluation fails exactly if a proposition has no value, reporting the first of these, and
otherwise gives a truth value. Assignments that agree on the propositions come to the same, be it a
truth value or a failure, whatever they say of other names. -/
theorem domain_of_evaluation (h : f.IsProper) (a : Assignment) :
    (∀ a' : Assignment, (∀ name ∈ f.propositions, a' name = a name) →
      f.evaluate a' = f.evaluate a) ∧
    ((∃ name, f.evaluate a = .error (.unassigned name)) ↔
      ∃ name ∈ f.propositions, a name = none) ∧
    (∀ name, f.evaluate a = .error (.unassigned name) → a.missing? f.propositions = some name) ∧
    ((∃ b, f.evaluate a = .ok b) ↔ ∀ name ∈ f.propositions, a name ≠ none) := by
  refine ⟨fun a' => evaluate_congr, ?_⟩
  rw [evaluate_eq h a]
  cases ha : a.missing? f.propositions with
  | some name =>
    obtain ⟨hn, hnone⟩ := Assignment.mem_of_missing? ha
    refine ⟨iff_of_true ⟨name, rfl⟩ ⟨name, hn, hnone⟩, ?_, iff_of_false nofun ?_⟩
    · rintro _ ⟨⟩
      rfl
    · exact fun hall => hall name hn hnone
  | none =>
    have hall := Assignment.missing?_eq_none_iff.mp ha
    refine ⟨iff_of_false nofun ?_, nofun, iff_of_true ⟨_, rfl⟩ hall⟩
    rintro ⟨name, hn, hnone⟩
    exact hall name hn hnone

/-- A proposition without a value stops the evaluation of a conjunction, although its first operand
is false; and that the assignment has a truth value for the name of this literal is not noticed. -/
theorem domain_of_evaluation_settled_operand :
    let f := binary .and (leaf "0") (leaf "P")
    f.IsProper ∧
    (∃ name, f.evaluate (fun name => if name = "0" then some true else none) =
      .error (.unassigned name)) ∧
    f.evaluate (fun _ => some true) =
      f.evaluate fun name => if name = "P" then some true else none := by
  intro f
  have hf : f.IsProper := ⟨by decide, trivial, trivial⟩
  have hp : "P" ∈ f.propositions := by decide
  refine ⟨hf, (domain_of_evaluation hf _).2.1.mpr ⟨"P", hp, rfl⟩, ?_⟩
  refine (domain_of_evaluation hf _).1 _ fun name hn => ?_
  obtain rfl : name = "P" := by simpa [f, propositions, distinctNames, leaves, literalValue?,
    List.eraseDups_cons] using hn
  rfl

end Formula
end Sentential
