/-
# The check and the reader agree

The check goes through the text as it stands, with its blanks, and the reader through the tokens of
the normal form. A text that the check accepts is made of tokens of which no name runs on, so the
reader meets the same tokens in upper case; and both accept the grammar. Every formula read from
an accepted text is well formed, that is, built from names in upper case and literals with each
connective in its place.

Key definitions: `Formula.IsWellFormed`.
Key theorems: `Derives.isBlank_eq_false`, `Verdict.ofText_eq_accepted_iff_cut`,
`Verdict.exists_cut_of_accepted`, `Verdict.exists_derives_of_accepted`,
`Verdict.isWellFormed_of_derives`, `Verdict.accepted_of_splits`, `Verdict.agrees_with_reading`.
-/
import Sentential.Expression
import Sentential.Proofs.Acceptance
import Sentential.Proofs.Lexing
import Sentential.Proofs.Parsing

namespace Sentential

/-- Every connective has as many operands as it takes, and every leaf is a name in upper case or a
literal. -/
def Formula.IsWellFormed (f : Formula) : Prop :=
  f.IsProper ∧ ∀ name ∈ f.leaves, Token.IsUpperName name ∨ Token.IsBit name

theorem Derives.isWellFormed {g : Grade} {ts : List Token} {f : Formula}
    (h : Derives g (ts.map Token.upper) f) (hs : ∀ t ∈ ts, t.IsSymbol) : f.IsWellFormed := by
  refine ⟨h.isProper, fun name hname => ?_⟩
  rw [h.leaves_eq] at hname
  obtain ⟨u, hu, rfl⟩ := List.mem_map.mp hname
  obtain ⟨hu, ha⟩ := List.mem_filter.mp hu
  obtain ⟨t, ht, rfl⟩ := List.mem_map.mp hu
  exact Token.upper_atom (of_decide_eq_true ha) (hs t ht)

theorem Token.ofText_of_isBlank {text : String} (h : Expression.isBlank text = true) :
    ofText text = [] := by
  have hn : normalForm text.toList = [] := by
    have hf : text.toList.filter (fun c => !Text.isBlank c) = [] := by
      simpa [Expression.isBlank, List.filter_eq_nil_iff] using h
    rw [normalForm, hf, Text.upper_nil]
  rw [ofText, hn, sequence]
  rfl

/-- A text from which the grammar derives a formula is not blank. -/
theorem Derives.isBlank_eq_false {g : Grade} {text : String} {f : Formula}
    (h : Derives g (Token.ofText text) f) : Expression.isBlank text = false := by
  cases hb : Expression.isBlank text with
  | false => rfl
  | true => exact absurd (Token.ofText_of_isBlank hb) h.ne_nil

theorem Token.accepts_map_upper {ts : List Token} : Accepts (ts.map upper) ↔ Accepts ts := by
  have h : (ts.map upper).map category = ts.map category := by
    rw [List.map_map]
    rfl
  rw [Accepts, run?_congr h, Accepts]

namespace Verdict

variable {text : String}

theorem ofText_eq_accepted_iff_cut : ofText text = .accepted ↔
    ∃ ts, Token.Cut text.toList ts ∧ Token.Accepts ts := by
  simp only [ofText_eq_accepted_iff, Token.lexemes_eq_iff_cut]

/-- An accepted text is made of tokens that are accepted and of which no name runs on. -/
theorem exists_cut_of_accepted (h : ofText text = .accepted) :
    ∃ ts, Token.Cut text.toList ts ∧ Token.Accepts ts ∧ Token.Separated ts := by
  obtain ⟨ts, hc, ha⟩ := ofText_eq_accepted_iff_cut.mp h
  exact ⟨ts, hc, ha, Token.separated_of_isChain hc.isSymbol (Token.isChain_of_run? ha)⟩

/-- The grammar derives a formula from the tokens of an accepted text. -/
theorem exists_derives_of_accepted (h : ofText text = .accepted) :
    ∃ f, Derives .disjunction (Token.ofText text) f := by
  obtain ⟨ts, hc, ha, hs⟩ := exists_cut_of_accepted h
  rw [Token.ofText_of_cut hc hs]
  exact Token.accepts_iff_derives.mp (Token.accepts_map_upper.mpr ha)

/-- What the grammar derives from the tokens of an accepted text is well formed. -/
theorem isWellFormed_of_derives {g : Grade} {f : Formula} (h : ofText text = .accepted)
    (hf : Derives g (Token.ofText text) f) : f.IsWellFormed := by
  obtain ⟨ts, hc, -, hs⟩ := exists_cut_of_accepted h
  rw [Token.ofText_of_cut hc hs] at hf
  exact hf.isWellFormed hc.isSymbol

theorem exists_formula_of_accepted (h : ofText text = .accepted) {m : Int}
    (hm : (Formula.weight (Token.ofText text) : Int) ≤ m) :
    ∃ f, Formula.ofText m text = .ok (some f) ∧ f.IsWellFormed := by
  obtain ⟨f, hf⟩ := exists_derives_of_accepted h
  exact ⟨f, Formula.ofTokens_eq_some_iff.mpr ⟨hm, hf⟩, isWellFormed_of_derives h hf⟩

/-- A text without blanks and stray characters from which a formula is read is accepted. -/
theorem accepted_of_splits {ts : List Token} (hs : Token.Splits text.toList ts) {m : Int}
    {f : Formula} (h : Formula.ofText m text = .ok (some f)) : ofText text = .accepted := by
  have hf := (Formula.ofTokens_eq_some_iff.mp h).2
  rw [Token.ofText_of_cut hs.cut (Token.separated_of_splits hs)] at hf
  refine ofText_eq_accepted_iff_cut.mpr ⟨ts, hs.cut, ?_⟩
  exact Token.accepts_map_upper.mp (Token.accepts_iff_derives.mpr ⟨f, hf⟩)

/-- **The check and the reader accept the same texts.** From an accepted text a well-formed
formula is read under every sufficient limit; and a text that falls into symbols, from which a
formula is read under some limit, is accepted. -/
theorem agrees_with_reading (text : String) :
    (ofText text = .accepted → ∀ m : Int, (Formula.weight (Token.ofText text) : Int) ≤ m →
      ∃ f, Formula.ofText m text = .ok (some f) ∧ f.IsWellFormed) ∧
    ((∃ ts, Token.SplitsFrom text 0 ts) → (∃ m f, Formula.ofText m text = .ok (some f)) →
      ofText text = .accepted) := by
  refine ⟨fun h m hm => exists_formula_of_accepted h hm, ?_⟩
  rintro ⟨ts, hs⟩ ⟨m, f, hf⟩
  exact accepted_of_splits ((Token.splitsFrom_iff_splits (Nat.zero_le _)).mp hs) hf

/-- A negated conclusion, typed without blanks and partly in lower case. -/
theorem agrees_with_reading_negated_conclusion : ofText "p->!q" = .accepted ∧
    ∃ f, Formula.ofText 2 "p->!q" = .ok (some f) ∧ f.IsWellFormed := by
  have hs : Token.Splits "p->!q".toList
      [.ofAtom "p", .ofConnective .implies, .ofConnective .not, .ofAtom "q"] :=
    .cons rfl (.cons rfl (.cons rfl (.cons rfl .nil)))
  have ht : Token.ofText "p->!q" =
      [.ofAtom "P", .ofConnective .implies, .ofConnective .not, .ofAtom "Q"] := by
    rw [Token.ofText_of_cut hs.cut (Token.separated_of_splits hs)]
    decide
  have hw : (Formula.weight (Token.ofText "p->!q") : Int) ≤ 2 := by
    rw [ht]
    decide
  have hd : Derives .conditional
      [.ofAtom "P", .ofConnective .implies, .ofConnective .not, .ofAtom "Q"]
      (.binary .implies (.leaf "P") (.unary .not (.leaf "Q"))) :=
    .chain (g := .conditional) (by decide) rfl (.tighter (.tighter (.atom rfl)))
      (.negation rfl (.tighter (.atom rfl)))
  have hf : Formula.ofText 2 "p->!q" =
      .ok (some (.binary .implies (.leaf "P") (.unary .not (.leaf "Q")))) := by
    refine Formula.ofTokens_eq_some_iff.mpr ⟨hw, ?_⟩
    rw [ht]
    exact hd.to_disjunction
  have hacc := (agrees_with_reading "p->!q").2
    ⟨_, (Token.splitsFrom_iff_splits (Nat.zero_le _)).mpr hs⟩ ⟨2, _, hf⟩
  exact ⟨hacc, (agrees_with_reading "p->!q").1 hacc 2 hw⟩

end Verdict
end Sentential
