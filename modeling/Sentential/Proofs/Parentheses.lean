/-
# Parentheses that are needed

A rendered formula has parentheses where the rule for operands asks for them. If one pair is left
out, what remains is still accepted, and a formula is read from it under every limit that its own
weight keeps. But it is another one. What stands where the pair was has the connectives of the
operand and is accepted by itself, so if the same formula were derived, the operand would be derived
from its tokens at the grade of its frame; and the pair is there because it is looser.

The one exception is the conditional on the left of a biconditional. The two are grouped in one
pass, so that the frame takes it bare, but it ranks looser and is put in parentheses.

Key definitions: `Formula.Frame.spares`, `Formula.Path.bare`, `Formula.Path.leading`,
`Formula.Path.trailing`.
Key theorems: `Formula.Frame.place_le_iff_of_encloses`, `Formula.Path.derives_bare_iff`,
`Formula.Path.render_plug`, `Formula.Path.read_without_pair`.
-/
import Sentential.Proofs.Frames
import Sentential.Proofs.Weight

namespace Sentential

namespace Formula

variable {x : Formula}

namespace Frame

variable {fr : Frame}

/-- The operand is a conditional on the left of a biconditional, which the frame takes bare. -/
def spares : Frame → Formula → Bool
  | left c _, x => spared c x
  | unary _, _ | right _ _, _ => false

theorem spares_iff : fr.spares x = true ↔
    (∃ r, fr = .left .xnor r) ∧ x.connective? = some .implies := by
  cases fr <;> simp [spares, spared]

/-- A frame puts an operand in parentheses if it does not take it bare, and besides if it could be
spared them. -/
theorem toNat_encloses (hfr : fr.IsProper) :
    (fr.encloses x).toNat = surcharge fr.grade x + (fr.spares x).toNat := by
  cases fr with
  | unary c =>
    obtain rfl : c = .not := hfr
    exact toNat_needsParentheses_left .not x
  | left c r => exact toNat_needsParentheses_left c x
  | right c l => exact toNat_needsParentheses_right hfr.1 x

/-- Of the operands in parentheses, the frame takes those bare that could be spared them. -/
theorem place_le_iff_of_encloses (hfr : fr.IsProper) (h : fr.encloses x = true) :
    x.grade.place ≤ fr.grade.place ↔ fr.spares x = true := by
  have hn : surcharge fr.grade x + (fr.spares x).toNat = 1 := by
    rw [← toNat_encloses hfr, h, Bool.toNat_true]
  constructor
  · intro hle
    rw [surcharge, if_pos hle, Nat.zero_add] at hn
    exact Bool.toNat_eq_one.mp hn
  · intro hs
    by_contra hlt
    rw [surcharge, if_neg hlt, hs] at hn
    cases hn

end Frame

namespace Path

/-- The tokens of the formula, without parentheses of the frame around the operand. -/
def bare (fr : Frame) (path : Path) (x : Formula) : List Token :=
  before path (fr.fill x) ++ (fr.before ++ x.tokens ++ fr.after) ++ after path (fr.fill x)

/-- The text before the operand, up to parentheses of its own. -/
def leading (fr : Frame) (path : Path) (x : Formula) : String :=
  Token.spelling (before path (fr.fill x) ++ fr.before)

/-- The text after the operand, from parentheses of its own on. -/
def trailing (fr : Frame) (path : Path) (x : Formula) : String :=
  Token.spelling (fr.after ++ after path (fr.fill x))

variable {fr : Frame} {path : Path}

/-- **A pair of parentheses can be left out exactly if the frame takes the operand bare.** -/
theorem derives_bare_iff (hp : ∀ fr' ∈ fr :: path, fr'.IsProper) (hx : x.IsProper) :
    Derives .disjunction (bare fr path x) (plug (fr :: path) x) ↔
      x.grade.place ≤ fr.grade.place := by
  obtain ⟨hfr, hp⟩ := List.forall_mem_cons.mp hp
  have hfits : Fits x.tokens x := fits_tokens hx
  constructor
  · intro h
    have hfill : Derives .disjunction (fr.before ++ x.tokens ++ fr.after) (fr.fill x) :=
      derives_of_plug hp (Frame.fits_fill hfr hfits) h
    have hbare : Derives fr.grade x.tokens x := (Frame.derives_of_fill hfr hfits hfill).2
    exact place_le_of_derives_tokens hx hbare
  · intro h
    have hbare : Derives fr.grade x.tokens x := (derives_tokens hx).mono h
    exact (derives_plug hp (Frame.derives_fill hfr hbare)).to_disjunction

/-- The rendered formula, with the pair of parentheses around an operand. -/
theorem render_plug (hf : (plug (fr :: path) x).IsProper) (h : fr.encloses x = true) :
    (plug (fr :: path) x).render .source =
      leading fr path x ++ "(" ++ x.render .source ++ ")" ++ trailing fr path x := by
  obtain ⟨-, hx⟩ := isProper_plug.mp hf
  have hpair : ∀ ts, enclose true ts = [.opening] ++ ts ++ [.closing] := fun _ => rfl
  have hopening : Token.spelling [.opening] = "(" := rfl
  have hclosing : Token.spelling [.closing] = ")" := rfl
  rw [render_eq_spelling hf, plug, tokens_plug, Frame.tokens_fill, h, hpair]
  simp only [Token.spelling_append, leading, trailing, render_eq_spelling hx, hopening, hclosing,
    String.append_assoc]

theorem spelling_bare (hx : x.IsProper) : Token.spelling (bare fr path x) =
    leading fr path x ++ x.render .source ++ trailing fr path x := by
  simp only [bare, Token.spelling_append, leading, trailing, render_eq_spelling hx,
    String.append_assoc]

theorem bare_subset (h : fr.encloses x = true) : bare fr path x ⊆ (plug (fr :: path) x).tokens := by
  intro t ht
  rw [plug, tokens_plug, Frame.tokens_fill, h, enclose, if_pos rfl]
  simp only [bare, List.mem_append, List.mem_cons] at ht ⊢
  tauto

theorem accepts_bare (hp : ∀ fr' ∈ fr :: path, fr'.IsProper) (hx : x.IsProper) :
    Token.Accepts (bare fr path x) := by
  obtain ⟨hfr, hp⟩ := List.forall_mem_cons.mp hp
  exact (fits_plug hp (Frame.fits_fill hfr (fits_tokens hx))).accepts

/-- **Every pair of parentheses in a rendered formula is needed**, but around a conditional on the
left of a biconditional. Without the pair around an operand the text is still accepted, and under
every sufficient limit a formula is read from it, but the same one in this case only. -/
theorem read_without_pair {f : Formula} (hf : f.IsWellFormed) (hplug : plug (fr :: path) x = f)
    (h : fr.encloses x = true) :
    f.render .source =
        leading fr path x ++ "(" ++ x.render .source ++ ")" ++ trailing fr path x ∧
      Verdict.ofText (leading fr path x ++ x.render .source ++ trailing fr path x) = .accepted ∧
      ∃ g, (∀ m : Int, (weight (Token.ofText
            (leading fr path x ++ x.render .source ++ trailing fr path x)) : Int) ≤ m →
          ofText m (leading fr path x ++ x.render .source ++ trailing fr path x) = .ok (some g)) ∧
        (g = f ↔ (∃ r, fr = .left .xnor r) ∧ x.connective? = some .implies) := by
  subst hplug
  obtain ⟨hp, hx⟩ := isProper_plug.mp hf.1
  obtain ⟨hfr, -⟩ := List.forall_mem_cons.mp hp
  have haccepts : Token.Accepts (bare fr path x) := accepts_bare hp hx
  obtain ⟨haccepted, htokens⟩ := hf.read_spelling (bare_subset h) haccepts
  obtain ⟨g, hg⟩ := Token.accepts_iff_derives.mp haccepts
  rw [← spelling_bare hx]
  refine ⟨render_plug hf.1 h, haccepted, g, fun m hm => ?_, ?_⟩
  · refine ofTokens_eq_some_iff.mpr ⟨hm, ?_⟩
    rwa [htokens]
  · calc g = plug (fr :: path) x
      ↔ Derives .disjunction (bare fr path x) (plug (fr :: path) x) :=
        ⟨fun he => he ▸ hg, fun hd => hg.unique hd⟩
      _ ↔ x.grade.place ≤ fr.grade.place := derives_bare_iff hp hx
      _ ↔ fr.spares x = true := Frame.place_le_iff_of_encloses hfr h
      _ ↔ _ := Frame.spares_iff

/-- Behind a negation, a conditional needs its parentheses. -/
theorem read_without_pair_negated_conditional :
    (binary .or (leaf "R") (unary .not (binary .implies (leaf "P") (leaf "0")))).render .source =
        "R || !(P -> 0)" ∧
      Verdict.ofText "R || !P -> 0" = .accepted ∧
      ∃ g, ofText 3 "R || !P -> 0" = .ok (some g) ∧
        g ≠ binary .or (leaf "R") (unary .not (binary .implies (leaf "P") (leaf "0"))) := by
  have hf : (binary .or (leaf "R")
      (unary .not (binary .implies (leaf "P") (leaf "0")))).IsWellFormed := by
    refine ⟨⟨by decide, trivial, rfl, by decide, trivial, trivial⟩, ?_⟩
    intro name hn
    simp only [leaves, List.mem_append, List.mem_singleton] at hn
    rcases hn with rfl | rfl | rfl
    · exact .inl ⟨'R', [], rfl, by decide, by simp⟩
    · exact .inl ⟨'P', [], rfl, by decide, by simp⟩
    · exact .inr (.inl rfl)
  have hplug : plug [.unary .not, .right .or (leaf "R")] (binary .implies (leaf "P") (leaf "0")) =
      binary .or (leaf "R") (unary .not (binary .implies (leaf "P") (leaf "0"))) := rfl
  obtain ⟨hrender, haccepted, g, hread, hsame⟩ := read_without_pair hf hplug (by decide)
  have htext : leading (.unary .not) [.right .or (leaf "R")]
        (binary .implies (leaf "P") (leaf "0")) ++
      (binary .implies (leaf "P") (leaf "0")).render .source ++
      trailing (.unary .not) [.right .or (leaf "R")] (binary .implies (leaf "P") (leaf "0")) =
        "R || !P -> 0" := by decide
  rw [htext] at haccepted hread
  refine ⟨hrender.trans (by decide), haccepted, g, hread 3 (by decide +kernel), fun hg => ?_⟩
  obtain ⟨⟨r, hr⟩, -⟩ := hsame.mp hg
  cases hr

end Path

end Formula
end Sentential
