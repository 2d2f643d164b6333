/-
# The weight of a rendered formula

The limit under which a text is read counts its connectives and opening parentheses. A rendered
formula has the parentheses that the rule for operands asks for, not those that were typed, so the
two are compared along the derivation of the formula: where a grade derives a formula that is
looser, the text has a pair of parentheses of its own (`Formula.surcharge`), and this pays for the
pair that the rule may put there.

One kind of pair is not paid for. The conditional and the biconditional are grouped in one pass,
from left to right, so that `P -> Q <-> R` needs no parentheses; but the conditional ranks looser,
and by its rank it is rendered in parentheses on the left of a biconditional. Each such pair
(`Formula.sparePairs`) may put the rendering over the limit under which the text was read.

Key definitions: `Formula.surcharge`, `Formula.spared`, `Formula.sparePairs`.
Key theorems: `Formula.weight_tokens_le`, `Formula.exists_derives_weight`,
`Formula.read_render_within`, `Formula.render_over_limit`.
-/
import Sentential.Proofs.Rendering

namespace Sentential
namespace Formula

/-- The formula stands at the grade in parentheses only, which weigh one. -/
def surcharge (g : Grade) (f : Formula) : Nat := if f.grade.place ≤ g.place then 0 else 1

/-- The operand is a conditional on the left of a biconditional, which is rendered in parentheses
that it does not need. -/
def spared (c : Connective) (l : Formula) : Bool := c == .xnor && l.connective? == some .implies

/-- The number of conditionals that stand on the left of a biconditional. -/
def sparePairs : Formula → Nat
  | leaf _ => 0
  | unary _ x => x.sparePairs
  | binary c l r => (spared c l).toNat + l.sparePairs + r.sparePairs

variable {g : Grade} {t : Token} {ts us : List Token} {f l r x : Formula} {c : Connective}
  {needed : Bool}

/-! ### The weight of tokens -/

theorem weight_append : weight (ts ++ us) = weight ts + weight us := List.countP_append

theorem weight_cons : weight (t :: ts) =
    weight ts + if t.category = .atom ∨ t.category = .closing then 0 else 1 := by
  rw [weight, List.countP_cons, weight]
  by_cases ha : t.category = .atom <;> by_cases hc : t.category = .closing <;> simp [ha, hc]

theorem weight_connective (ht : t.category = .connective c) :
    weight (t :: ts) = weight ts + 1 := by
  simp [weight_cons, ht]

theorem weight_group {o : Token} (ho : o.category = .opening) (ht : t.category = .closing) :
    weight (o :: ts ++ [t]) = weight ts + 1 := by
  rw [List.cons_append, weight_cons, weight_append, weight_cons]
  simp [ho, ht, weight]

theorem weight_enclose : weight (enclose needed ts) = weight ts + needed.toNat := by
  cases needed with
  | false => rfl
  | true => exact weight_group rfl rfl

/-! ### What the parentheses of a rendered formula weigh -/

/-- On the left, or behind a negation, an operand is rendered in parentheses if it is looser than
the whole, and besides if it is a conditional in a biconditional. -/
theorem toNat_needsParentheses_left (c : Connective) (x : Formula) :
    (x.needsParentheses c false).toNat = surcharge c.grade x + (spared c x).toNat := by
  have hd : ∀ d : Connective, (d.bindsLooser c || (false && d.pass == c.pass)).toNat =
      (if d.grade.place ≤ c.grade.place then 0 else 1) +
        (c == .xnor && some d == some .implies).toNat := by
    intro d
    cases c <;> cases d <;> decide
  cases x with
  | leaf name => cases c <;> rfl
  | unary d x | binary d l r => exact hd d

theorem toNat_needsParentheses_right (hc : c ≠ .not) (x : Formula) :
    (x.needsParentheses c true).toNat = surcharge c.grade.tighter x := by
  have hd : ∀ d : Connective, (d.bindsLooser c || (true && d.pass == c.pass)).toNat =
      if d.grade.place ≤ c.grade.tighter.place then 0 else 1 := by
    intro d
    cases c <;> cases d <;> first | exact absurd rfl hc | decide
  cases x with
  | leaf name => exact (if_pos (Nat.zero_le _)).symm
  | unary d x | binary d l r => exact hd d

theorem weight_tokens_unary (x : Formula) :
    weight (unary .not x).tokens = weight x.tokens + surcharge .negation x + 1 := by
  have hx : (x.needsParentheses .not false).toNat = surcharge .negation x :=
    toNat_needsParentheses_left .not x
  rw [tokens, weight_connective rfl, weight_enclose, hx]

theorem weight_tokens_binary (hc : c ≠ .not) (l r : Formula) : weight (binary c l r).tokens =
    weight l.tokens + surcharge c.grade l + (spared c l).toNat +
      (weight r.tokens + surcharge c.grade.tighter r + 1) := by
  rw [tokens, weight_append, weight_connective rfl, weight_enclose, weight_enclose,
    toNat_needsParentheses_left, toNat_needsParentheses_right hc]
  omega

/-! ### The least weight of a formula -/

theorem surcharge_le_one : surcharge g f ≤ 1 := by
  unfold surcharge
  split <;> omega

theorem surcharge_le_tighter : surcharge g f ≤ surcharge g.tighter f := by
  have hg := g.tighter_place_le
  unfold surcharge
  split
  · exact Nat.zero_le _
  · next h => rw [if_neg (by omega)]

/-- **A rendered formula weighs no more than the tokens it is derived from**, but for the pairs that
could be spared. At a grade that is too tight for the formula, the tokens weigh one more. -/
theorem weight_tokens_le (h : Derives g ts f) :
    weight f.tokens + surcharge g f ≤ weight ts + f.sparePairs := by
  induction h with
  | atom ht => exact Nat.zero_le _
  | @group o c ts f ho hc _ ih =>
    have hs : surcharge .primary f ≤ 1 := surcharge_le_one
    rw [weight_group ho hc]
    omega
  | @negation t ts x ht _ ih =>
    have hs : surcharge .negation (unary .not x) = 0 := rfl
    rw [weight_tokens_unary, weight_connective ht, hs, sparePairs]
    omega
  | @chain g t c ts us l r hm ht _ _ ihl ihr =>
    obtain ⟨hc, rfl⟩ := Grade.mem_connectives.1 hm
    have hs : surcharge c.grade (binary c l r) = 0 := if_pos (Nat.le_refl _)
    rw [weight_tokens_binary hc, weight_append, weight_connective ht, hs, sparePairs]
    omega
  | @tighter g ts f _ ih =>
    have hs : surcharge g f ≤ surcharge g.tighter f := surcharge_le_tighter
    omega

/-- At any grade a formula is derived from its tokens, in parentheses only if it is too loose. -/
theorem exists_derives_at (h : Derives f.grade ts f) (g : Grade) :
    ∃ us, Derives g us f ∧ weight us = weight ts + surcharge g f := by
  by_cases hg : f.grade.place ≤ g.place
  · refine ⟨ts, h.mono hg, ?_⟩
    rw [surcharge, if_pos hg, Nat.add_zero]
  · refine ⟨.opening :: ts ++ [.closing], ?_, ?_⟩
    · exact (Derives.group rfl rfl h.to_disjunction).mono (Nat.zero_le _)
    · rw [surcharge, if_neg hg, weight_group rfl rfl]

/-- **No better bound holds**: from some tokens that weigh less than the rendering by all pairs that
could be spared, the grammar derives the formula. -/
theorem exists_derives_weight (h : f.IsProper) :
    ∃ ts, Derives f.grade ts f ∧ weight f.tokens = weight ts + f.sparePairs := by
  induction f with
  | leaf name => exact ⟨[.ofAtom name], .atom rfl, rfl⟩
  | unary c x ih =>
    obtain ⟨rfl, hx⟩ := h
    obtain ⟨ts, hd, hw⟩ := ih hx
    obtain ⟨us, hus, hwus⟩ := exists_derives_at hd .negation
    refine ⟨.ofConnective .not :: us, .negation rfl hus, ?_⟩
    rw [weight_tokens_unary, weight_connective rfl, sparePairs]
    omega
  | binary c l r ihl ihr =>
    obtain ⟨hc, hl, hr⟩ := h
    obtain ⟨ts, hdl, hwl⟩ := ihl hl
    obtain ⟨ts', hdr, hwr⟩ := ihr hr
    obtain ⟨us, hus, hwus⟩ := exists_derives_at hdl c.grade
    obtain ⟨us', hus', hwus'⟩ := exists_derives_at hdr c.grade.tighter
    refine ⟨us ++ .ofConnective c :: us',
      .chain (Grade.mem_connectives.2 ⟨hc, rfl⟩) rfl hus hus', ?_⟩
    rw [weight_tokens_binary hc, weight_append, weight_connective rfl, sparePairs]
    omega

/-! ### Reading a rendered formula again -/

/-- **A rendered formula is read again under the limit of the text it comes from**, raised by one
for each pair of parentheses that could be spared; where there is none, under the same limit. The
rendering weighs more than the text by that number at most, and than some tokens of the formula by
just that number. -/
theorem read_render_within {text : String} (h : Verdict.ofText text = .accepted) {m : Int}
    (hf : ofText m text = .ok (some f)) :
    weight (Token.ofText (f.render .source)) ≤ weight (Token.ofText text) + f.sparePairs ∧
      (∃ ts, Derives .disjunction ts f ∧
        weight (Token.ofText (f.render .source)) = weight ts + f.sparePairs) ∧
      ∀ m' : Int, m + f.sparePairs ≤ m' → ofText m' (f.render .source) = .ok (some f) ∧
        Expression.read m' (f.render .source) = .ok (some f) := by
  obtain ⟨hm, hd⟩ := ofTokens_eq_some_iff.mp hf
  have hformed : f.IsWellFormed := Verdict.isWellFormed_of_derives h hd
  have htokens : Token.ofText (f.render .source) = f.tokens := ofText_render hformed
  have hw : weight f.tokens ≤ weight (Token.ofText text) + f.sparePairs :=
    Nat.le_trans (Nat.le_add_right _ _) (weight_tokens_le hd)
  obtain ⟨ts, hts, hsharp⟩ := exists_derives_weight hformed.1
  rw [htokens]
  refine ⟨hw, ⟨ts, hts.to_disjunction, hsharp⟩, fun m' hm' => ?_⟩
  have hagain : Derives .disjunction (Token.ofText (f.render .source)) f := by
    rw [htokens]
    exact (derives_tokens hformed.1).to_disjunction
  have hread : ofText m' (f.render .source) = .ok (some f) := by
    refine ofTokens_eq_some_iff.mpr ⟨?_, hagain⟩
    rw [htokens]
    omega
  exact ⟨hread, by rw [Expression.read, if_neg (by simp [hagain.isBlank_eq_false]), hread]⟩

/-- A conditional on the left of a biconditional is read without parentheses, and its rendering is
read again under a limit raised by one. -/
theorem read_render_within_spare_pair : Verdict.ofText "p -> q <-> r" = .accepted ∧
    ofText 2 "p -> q <-> r" =
      .ok (some (.binary .xnor (.binary .implies (.leaf "P") (.leaf "Q")) (.leaf "R"))) ∧
    ofText 3 "(P -> Q) <-> R" =
      .ok (some (.binary .xnor (.binary .implies (.leaf "P") (.leaf "Q")) (.leaf "R"))) := by
  have hacc : Verdict.ofText "p -> q <-> r" = .accepted := by decide +kernel
  have hread : ofText 2 "p -> q <-> r" =
      .ok (some (.binary .xnor (.binary .implies (.leaf "P") (.leaf "Q")) (.leaf "R"))) := by
    decide +kernel
  have h := ((read_render_within hacc hread).2.2 3 (by decide)).1
  have hr : (binary .xnor (.binary .implies (.leaf "P") (.leaf "Q")) (.leaf "R")).render .source =
      "(P -> Q) <-> R" := by decide
  exact ⟨hacc, hread, hr ▸ h⟩

/-- Under the limit of the text itself, the rendering may be too complex. -/
theorem render_over_limit : Verdict.ofText "P -> Q <-> R" = .accepted ∧
    ∃ f, ofText 2 "P -> Q <-> R" = .ok (some f) ∧ f.render .source = "(P -> Q) <-> R" ∧
      ofText 2 (f.render .source) = .error (.tooComplex 3 2) := by
  refine ⟨by decide +kernel,
    .binary .xnor (.binary .implies (.leaf "P") (.leaf "Q")) (.leaf "R"), ?_, ?_, ?_⟩
  · decide +kernel
  · decide
  · decide +kernel

end Formula
end Sentential
