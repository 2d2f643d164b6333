/-
# Subformulas and their values

The subformulas of a formula are its leaves and, with a connective at the root, its compounds. The
propositions are the leaves that are not literals, each once.

Under an assignment that gives a value to every proposition, each formula whose connectives have
as many operands as they take has a truth value, which only the propositions settle.

Key definitions: `Formula.subformulas`, `Formula.holds`.
Key theorems: `Formula.mem_compounds`, `Formula.descend`, `Formula.mem_propositions`,
`Formula.nodup_propositions`, `Formula.evaluate_eq_holds`, `Formula.apply_operands`.
-/
import Sentential.Formula
import Sentential.Table
import Sentential.Proofs.Occurrences

namespace Sentential
namespace Formula

/-- The subformulas, operands before what they are operands of. -/
def subformulas : Formula → List Formula
  | leaf name => [leaf name]
  | unary c x => x.subformulas ++ [unary c x]
  | binary c l r => l.subformulas ++ r.subformulas ++ [binary c l r]

/-- The truth value where every name has one; literals keep their own. -/
def holds (a : String → Bool) : Formula → Bool
  | leaf name => (literalValue? name).getD (a name)
  | unary c x => c.value (x.holds a) (x.holds a)
  | binary c l r => c.value (l.holds a) (r.holds a)

variable {f s : Formula} {name : String}

theorem self_mem_subformulas (f : Formula) : f ∈ f.subformulas := by
  cases f <;> simp [subformulas]

theorem mem_subformulas_of_operand {x : Formula} (h : x ∈ f.operands) : x ∈ f.subformulas := by
  cases f with
  | leaf name => cases h
  | unary c y =>
    obtain rfl := List.mem_singleton.mp h
    exact List.mem_append_left _ x.self_mem_subformulas
  | binary c l r =>
    simp only [operands, List.mem_cons, List.not_mem_nil, or_false] at h
    simp only [subformulas, List.mem_append]
    rcases h with rfl | rfl
    · exact .inl (.inl x.self_mem_subformulas)
    · exact .inl (.inr x.self_mem_subformulas)

/-- The compounds are the subformulas with a connective. -/
theorem mem_compounds : s ∈ f.compounds ↔ s ∈ f.subformulas ∧ s.connective?.isSome := by
  induction f with
  | leaf name =>
    constructor
    · intro h
      cases h
    · rintro ⟨h, hs⟩
      rw [List.mem_singleton.mp h] at hs
      cases hs
  | unary c x ih =>
    have hc : s = unary c x → s.connective?.isSome := by
      rintro rfl
      rfl
    simp only [compounds, subformulas, List.mem_append, List.mem_singleton, ih]
    tauto
  | binary c l r ihl ihr =>
    have hc : s = binary c l r → s.connective?.isSome := by
      rintro rfl
      rfl
    simp only [compounds, subformulas, List.mem_append, List.mem_singleton, ihl, ihr]
    tauto

theorem leaf_mem_subformulas : leaf name ∈ f.subformulas ↔ name ∈ f.leaves := by
  induction f with
  | leaf => simp [subformulas, leaves]
  | unary c x ih => simp [subformulas, leaves, ih]
  | binary c l r ihl ihr => simp [subformulas, leaves, ihl, ihr]

/-- What passes from a formula to its operands passes to all its subformulas. -/
theorem descend {P : Formula → Prop} (operand : ∀ c x, P (unary c x) → P x)
    (operands : ∀ c l r, P (binary c l r) → P l ∧ P r) (h : P f) (hs : s ∈ f.subformulas) : P s := by
  induction f with
  | leaf name => rwa [List.mem_singleton.mp hs]
  | unary c x ih =>
    rcases List.mem_append.mp hs with hs | hs
    · exact ih (operand c x h) hs
    · rwa [List.mem_singleton.mp hs]
  | binary c l r ihl ihr =>
    rcases List.mem_append.mp hs with hs | hs
    · rcases List.mem_append.mp hs with hs | hs
      · exact ihl (operands c l r h).1 hs
      · exact ihr (operands c l r h).2 hs
    · rwa [List.mem_singleton.mp hs]

theorem subformulas_subset (hs : s ∈ f.subformulas) : s.subformulas ⊆ f.subformulas := by
  refine descend (P := fun s => s.subformulas ⊆ f.subformulas) (fun c x h => ?_) (fun c l r h => ?_)
    (List.Subset.refl _) hs
  · exact (List.append_subset.mp h).1
  · exact List.append_subset.mp (List.append_subset.mp h).1

theorem leaves_subset (hs : s ∈ f.subformulas) : s.leaves ⊆ f.leaves := by
  refine descend (P := fun s => s.leaves ⊆ f.leaves) (fun c x h => h) (fun c l r h => ?_)
    (List.Subset.refl _) hs
  exact List.append_subset.mp h

theorem IsProper.of_mem_subformulas (h : f.IsProper) (hs : s ∈ f.subformulas) : s.IsProper :=
  descend (fun _ _ h => h.2) (fun _ _ _ h => h.2) h hs

theorem sizeOf_le_of_mem_subformulas (hs : s ∈ f.subformulas) : sizeOf s ≤ sizeOf f := by
  refine descend (P := fun s => sizeOf s ≤ sizeOf f) (fun c x h => ?_) (fun c l r h => ?_)
    (Nat.le_refl _) hs
  · rw [unary.sizeOf_spec] at h
    omega
  · rw [binary.sizeOf_spec] at h
    omega

/-- The last compound is the formula itself, which is not met before. -/
theorem exists_compounds_eq (h : f.connective?.isSome) :
    ∃ before, f.compounds = before ++ [f] ∧ f ∉ before := by
  have smaller : ∀ x : Formula, f ∈ x.compounds → sizeOf f ≤ sizeOf x := fun x hx =>
    sizeOf_le_of_mem_subformulas (mem_compounds.mp hx).1
  cases f with
  | leaf name => cases h
  | unary c x =>
    refine ⟨x.compounds, rfl, fun hx => ?_⟩
    have := smaller x hx
    rw [unary.sizeOf_spec] at this
    omega
  | binary c l r =>
    refine ⟨l.compounds ++ r.compounds, rfl, fun hx => ?_⟩
    rcases List.mem_append.mp hx with hx | hx
    · have := smaller l hx
      rw [binary.sizeOf_spec] at this
      omega
    · have := smaller r hx
      rw [binary.sizeOf_spec] at this
      omega

/-! ### Propositions -/

theorem nodup_propositions (f : Formula) : f.propositions.Nodup := nodup_eraseDups _

theorem mem_propositions :
    name ∈ f.propositions ↔ name ∈ f.leaves ∧ literalValue? name = none := by
  rw [propositions, distinctNames, List.mem_eraseDups, List.mem_filter, Option.isNone_iff_eq_none]

theorem propositions_subset (hs : s ∈ f.subformulas) : s.propositions ⊆ f.propositions := by
  intro name hn
  obtain ⟨hl, hn⟩ := mem_propositions.mp hn
  exact mem_propositions.mpr ⟨leaves_subset hs hl, hn⟩

/-! ### Truth values -/

/-- Where the assignment says the same on all propositions, evaluation gives the truth value. -/
theorem evaluate_eq_holds {p : Assignment} {a : String → Bool} (h : f.IsProper)
    (ha : ∀ name ∈ f.propositions, p name = some (a name)) : f.evaluate p = .ok (f.holds a) := by
  induction f with
  | leaf name =>
    rw [evaluate, valueOf, holds]
    cases hl : literalValue? name with
    | some b => rfl
    | none =>
      rw [ha name (mem_propositions.mpr ⟨List.mem_singleton_self name, hl⟩)]
      rfl
  | unary c x ih =>
    obtain ⟨rfl, hx⟩ := h
    rw [evaluate, ih hx ha]
    rfl
  | binary c l r ihl ihr =>
    obtain ⟨-, hl, hr⟩ := h
    have hsl : l.propositions ⊆ (binary c l r).propositions := propositions_subset
      (List.mem_append_left _ (List.mem_append_left _ l.self_mem_subformulas))
    have hsr : r.propositions ⊆ (binary c l r).propositions := propositions_subset
      (List.mem_append_left _ (List.mem_append_right _ r.self_mem_subformulas))
    rw [evaluate, ihl hl fun name hn => ha name (hsl hn), ihr hr fun name hn => ha name (hsr hn)]
    rfl

/-- The truth value of a compound is that of its operands, joined. -/
theorem apply_operands {a : String → Bool} {c : Connective} (h : s.IsProper)
    (hc : s.connective? = some c) : c.apply (s.operands.map (holds a)) = .ok (s.holds a) := by
  cases s with
  | leaf name => cases hc
  | unary d x =>
    obtain ⟨rfl, -⟩ := h
    obtain rfl := Option.some.inj hc
    rfl
  | binary d l r =>
    obtain rfl := Option.some.inj hc
    rfl

end Formula
end Sentential
