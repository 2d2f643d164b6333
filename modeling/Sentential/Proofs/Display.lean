/-
# What is shown of a text

Showing a text fails for one reason only: a table is drawn, and a truth value in one of its cells
has a glyph that is no text. Otherwise something is printed, and it says that all went well exactly
if the text is blank, or accepted and within both limits; this depends neither on the form in which
the result is printed nor on the style.

All this is about a console that does what is relied on, and glyphs without markup: a console reads
markup in the cells of a table, and what it makes of it is not known here.

Key definitions: `Token.propositions`, `Formula.Takes`, `CommandLine.hasMarkup`,
`CommandLine.Console.Prints`, `Settings.LacksMarkup`, `CommandLine.IsTabulable`,
`CommandLine.Shows`.
Key theorems: `CommandLine.Console.plain_prints`, `Table.exists_mem_rows_iff`,
`CommandLine.table_ok_iff`, `CommandLine.isTabulable_iff`, `CommandLine.shown_of_display`,
`CommandLine.display_ok_iff`.
-/
import Sentential.CommandLine.Display
import Sentential.Proofs.Analysis
import Sentential.Proofs.Columns

namespace Sentential

/-! ### What is relied on of a console -/

namespace CommandLine

/-- A tag of markup may begin with the character. -/
def opensTag (c : Char) : Bool := ('a' ≤ c && c ≤ 'z') || c = '#' || c = '/' || c = '@'

/-- The text holds a tag: an opening bracket, a character with which a tag begins, and a closing
bracket before the next opening one. -/
def hasMarkup : List Char → Bool
  | '[' :: c :: cs =>
    opensTag c && (cs.takeWhile (· ≠ '[')).contains ']' || hasMarkup (c :: cs)
  | _ :: cs => hasMarkup cs
  | [] => false

theorem hasMarkup_of_notMem {cs : List Char} (h : '[' ∉ cs) : hasMarkup cs = false := by
  induction cs with
  | nil => rfl
  | cons c cs ih =>
    rw [List.mem_cons, not_or] at h
    rw [hasMarkup, ih h.2]
    exact fun _ _ hc _ => h.1 hc.symm

example : hasMarkup "[/x]".toList = true ∧ hasMarkup "[1]".toList = false := by decide

def IsPlainText (cell : Json) : Prop := ∃ text, cell = .str text ∧ hasMarkup text.toList = false

/-- The value is neither a text nor null. -/
def IsForeign (cell : Json) : Prop := cell ≠ .null ∧ ∀ text, cell ≠ .str text

/-- What is relied on of a console: a line that is printed holds something, a table is printed if
its cells are texts without markup, and it is not if one of them is neither a text nor null. Of
texts with markup nothing is said, for a tag may be one that cannot be printed. -/
structure Console.Prints (c : Console) : Prop where
  line_ne_empty : ∀ text, c.line text ≠ ""
  table_ok : ∀ headers rows, (∀ row ∈ rows, ∀ cell ∈ row, IsPlainText cell) →
    ∃ printed, c.table headers rows = .ok printed
  table_error : ∀ headers rows, (∃ row ∈ rows, ∃ cell ∈ row, IsForeign cell) →
    ¬ ∃ printed, c.table headers rows = .ok printed

theorem cellText_ok_iff {cell : Json} : (∃ text, cellText cell = .ok text) ↔ ¬ IsForeign cell := by
  cases cell <;> simp [cellText, IsForeign]

theorem cellTexts_ok_iff {rows : List (List Json)} : (∃ texts, cellTexts rows = .ok texts) ↔
    ∀ row ∈ rows, ∀ cell ∈ row, ¬ IsForeign cell := by
  rw [cellTexts, exists_mapM_ok_iff]
  refine forall₂_congr fun row _ => ?_
  rw [exists_mapM_ok_iff]
  exact forall₂_congr fun cell _ => cellText_ok_iff

/-- The simple console does what is relied on. -/
theorem Console.plain_prints : Console.plain.Prints where
  line_ne_empty text := by
    show plainLine text ≠ ""
    simp [plainLine, String.append_eq_empty_iff]
  table_ok headers rows hrows := by
    have htexts : ∃ texts, cellTexts rows = .ok texts := by
      refine cellTexts_ok_iff.mpr fun row hrow cell hcell hforeign => ?_
      obtain ⟨text, htext, -⟩ := hrows row hrow cell hcell
      exact hforeign.2 text htext
    obtain ⟨texts, htexts⟩ := htexts
    exact ⟨Box.draw headers texts, map_ok_iff.mpr ⟨texts, htexts, rfl⟩⟩
  table_error headers rows := by
    rintro ⟨row, hrow, cell, hcell, hforeign⟩ ⟨printed, hprinted⟩
    obtain ⟨texts, htexts, -⟩ := map_ok_iff.mp hprinted
    exact cellTexts_ok_iff.mp ⟨texts, htexts⟩ row hrow cell hcell hforeign

end CommandLine

namespace Settings

/-- A glyph that is a text holds no markup. -/
def LacksMarkup (s : Settings) : Prop :=
  ∀ b text, s.glyph b = .str text → CommandLine.hasMarkup text.toList = false

variable {s : Settings} {b : Bool}

theorem glyph_ne_null : s.glyph b ≠ .null := by
  have hvacant : (s.glyph b).isVacant = false := by
    cases b with
    | true => exact s.trueGlyph_held
    | false => exact s.falseGlyph_held
  intro hnull
  rw [hnull] at hvacant
  cases hvacant

theorem isForeign_glyph_iff :
    CommandLine.IsForeign (s.glyph b) ↔ ¬ ∃ text, s.glyph b = .str text := by
  rw [CommandLine.IsForeign, and_iff_right glyph_ne_null, not_exists]

end Settings

/-! ### The truth values in a table -/

def Token.propositions (ts : List Token) : List String :=
  Formula.distinctNames ((ts.filter (·.category = .atom)).map (·.text))

theorem Derives.propositions_eq {g : Grade} {ts : List Token} {f : Formula} (h : Derives g ts f) :
    f.propositions = Token.propositions ts := by
  rw [Formula.propositions, h.leaves_eq, Token.propositions]

/-- Some subformula that is no literal has the truth value in some row. -/
def Formula.Takes (f : Formula) (b : Bool) : Prop :=
  ∃ s ∈ f.subformulas, s.literal? = none ∧
    ∃ row < 2 ^ f.propositions.length, s.holds (Table.valueIn row f.propositions) = b

namespace Table

variable {style : Style} {names : List String} {fs : List Formula} {f s : Formula} {b : Bool}

theorem mem_columns_iff : s ∈ f.propositions.map Formula.leaf ++ f.compounds.eraseDups ↔
    s ∈ f.subformulas ∧ s.literal? = none := by
  rw [List.mem_append, List.mem_eraseDups, Formula.mem_compounds]
  cases s with
  | leaf name =>
    simp [Formula.mem_propositions, Formula.leaf_mem_subformulas, Formula.connective?,
      Formula.literal?]
  | unary | binary => simp [Formula.connective?, Formula.literal?]

/-- The truth values in the rows are those that the formula takes. -/
theorem exists_mem_rows_iff :
    (∃ row ∈ (Report.Sheet.ofTable (ofFormulas style f.propositions f.compounds)).rows, b ∈ row) ↔
      f.Takes b := by
  have hrows : (Report.Sheet.ofTable (ofFormulas style f.propositions f.compounds)).rows =
      (List.range (ofFormulas style f.propositions f.compounds).rowCount).map fun row =>
        (f.propositions.map Formula.leaf ++ f.compounds.eraseDups).map
          fun s => s.holds (valueIn row f.propositions) := by
    rw [Report.Sheet.ofTable, rows?_ofFormulas]
    rfl
  have hcount : ∀ s ∈ f.subformulas, s.literal? = none →
      (ofFormulas style f.propositions f.compounds).rowCount = 2 ^ f.propositions.length := by
    intro s hs hl
    rw [rowCount_ofFormulas]
    cases f with
    | leaf name => rw [← List.mem_singleton.mp hs, hl, if_neg (by simp)]
    | unary | binary => rfl
  rw [hrows]
  constructor
  · rintro ⟨row, hrow, hb⟩
    obtain ⟨n, hn, rfl⟩ := List.mem_map.mp hrow
    obtain ⟨s, hs, rfl⟩ := List.mem_map.mp hb
    obtain ⟨hs, hl⟩ := mem_columns_iff.mp hs
    rw [hcount s hs hl] at hn
    exact ⟨s, hs, hl, n, List.mem_range.mp hn, rfl⟩
  · rintro ⟨s, hs, hl, n, hn, rfl⟩
    rw [hcount s hs hl]
    exact ⟨_, List.mem_map_of_mem (List.mem_range.mpr hn),
      List.mem_map_of_mem (mem_columns_iff.mpr ⟨hs, hl⟩)⟩

end Table

namespace CommandLine

/-- The text is blank, or it is accepted and within both limits. -/
def IsTabulable (s : Settings) (text : String) : Prop :=
  Expression.isBlank text = true ∨ Verdict.ofText text = .accepted ∧
    Formula.weight (Token.ofText text) ≤ s.maxOperators ∧
    (Token.propositions (Token.ofText text)).length ≤ s.maxPropositions

instance (s : Settings) (text : String) : Decidable (IsTabulable s text) :=
  inferInstanceAs (Decidable (_ ∨ _ ∧ _ ∧ _))

/-- The text has a table in which the truth value occurs. -/
def Shows (s : Settings) (text : String) (b : Bool) : Prop :=
  IsTabulable s text ∧ ∃ f, Derives .disjunction (Token.ofText text) f ∧ f.Takes b

variable {c : Console} {s : Settings} {text : String} {json : Bool} {shown : Shown}
  {headers : List String} {rows : List (List Bool)}

theorem isTabulable_iff_of_derives {f : Formula} (h : Verdict.ofText text = .accepted)
    (hf : Derives .disjunction (Token.ofText text) f) : IsTabulable s text ↔
      Formula.weight (Token.ofText text) ≤ s.maxOperators ∧
        f.propositions.length ≤ s.maxPropositions := by
  rw [IsTabulable, hf.isBlank_eq_false, hf.propositions_eq]
  simp [h]

/-- A text is blank, or accepted and within the limits, exactly if its analysis accepts it. -/
theorem isTabulable_iff :
    IsTabulable s text ↔ ∃ a, Analysis.ofText s text = .ok a ∧ a.verdict = .accepted := by
  have ho := Analysis.outcome_ofText s text
  cases ha : Analysis.ofText s text with
  | error e =>
    rw [ha] at ho
    refine iff_of_false ?_ (by simp)
    cases ho with
    | tooComplex hv hw =>
      obtain ⟨f, hf⟩ := Verdict.exists_derives_of_accepted hv
      rw [isTabulable_iff_of_derives hv hf]
      omega
    | tooManyPropositions hv hw hf hp =>
      rw [isTabulable_iff_of_derives hv hf]
      omega
  | ok a =>
    rw [ha] at ho
    cases ho with
    | blank hb => exact iff_of_true (.inl hb) ⟨_, rfl, rfl⟩
    | rejected hb hv =>
      refine iff_of_false ?_ (by simp)
      rw [IsTabulable, hb, hv]
      simp
    | tabulated hv hw hf hp =>
      exact iff_of_true ((isTabulable_iff_of_derives hv hf).mpr ⟨hw, hp⟩) ⟨_, rfl, rfl⟩

/-! ### What is printed -/

/-- A table of glyphs without markup is printed exactly if the glyphs of the truth values in it are
texts. -/
theorem table_ok_iff (hc : c.Prints) (hm : s.LacksMarkup) :
    (∃ printed, c.table headers (rows.map fun row => row.map s.glyph) = .ok printed) ↔
      ∀ b, (∃ row ∈ rows, b ∈ row) → ∃ text, s.glyph b = .str text := by
  constructor
  · rintro hprinted b ⟨row, hrow, hb⟩
    by_contra hforeign
    refine hc.table_error _ _ ⟨row.map s.glyph, List.mem_map_of_mem hrow, s.glyph b,
      List.mem_map_of_mem hb, ?_⟩ hprinted
    exact Settings.isForeign_glyph_iff.mpr hforeign
  · intro htexts
    apply hc.table_ok
    intro row hrow cell hcell
    obtain ⟨values, hvalues, rfl⟩ := List.mem_map.mp hrow
    obtain ⟨b, hb, rfl⟩ := List.mem_map.mp hcell
    obtain ⟨text, htext⟩ := htexts b ⟨values, hvalues, hb⟩
    exact ⟨text, htext, hm b text htext⟩

theorem shown_of_showAnalysis (hc : c.Prints) {a : Analysis}
    (h : showAnalysis c s a = .ok shown) :
    shown.success = a.verdict.isAccepted ∧ shown.output ≠ "" := by
  unfold showAnalysis at h
  split at h
  · next hv =>
    obtain rfl := Except.ok.inj h
    rw [hv]
    refine ⟨rfl, ?_⟩
    simp [showRejection, problemLine, String.append_eq_empty_iff, hc.line_ne_empty]
  · next hv =>
    rw [hv]
    split at h
    · obtain rfl := Except.ok.inj h
      exact ⟨rfl, hc.line_ne_empty _⟩
    · obtain ⟨table, -, h⟩ := bind_ok_iff.mp h
      obtain rfl := Except.ok.inj h
      exact ⟨rfl, by simp [String.append_eq_empty_iff, hc.line_ne_empty]⟩

/-- Whatever is shown, it says whether the text is blank, or accepted and within the limits, and
something is printed. -/
theorem shown_of_display (hc : c.Prints) (h : display c s json text = .ok shown) :
    (shown.success = true ↔ IsTabulable s text) ∧ shown.output ≠ "" := by
  rw [isTabulable_iff]
  rw [display] at h
  cases ha : Analysis.ofText s text with
  | error e =>
    rw [ha] at h
    obtain rfl := Except.ok.inj h
    exact ⟨by simp, hc.line_ne_empty _⟩
  | ok a =>
    rw [ha] at h
    have hshown : shown.success = a.verdict.isAccepted ∧ shown.output ≠ "" := by
      cases json with
      | true =>
        obtain rfl := Except.ok.inj h
        exact ⟨rfl, by simp [String.append_eq_empty_iff]⟩
      | false => exact shown_of_showAnalysis hc h
    refine ⟨?_, hshown.2⟩
    rw [hshown.1]
    cases hv : a.verdict <;> simp [hv, Verdict.isAccepted]

theorem showAnalysis_ok_iff (hc : c.Prints) (hm : s.LacksMarkup) {t : Table} {preview : String} :
    (∃ shown, showAnalysis c s ⟨text, .accepted, some t, preview⟩ = .ok shown) ↔
      ∀ b, (∃ row ∈ (Report.Sheet.ofTable t).rows, b ∈ row) → ∃ glyph, s.glyph b = .str glyph := by
  rw [showAnalysis]
  simp only [Analysis.isEmpty, Verdict.isAccepted, Bool.true_and, Option.all_some,
    Option.getD_some]
  cases he : t.isEmpty with
  | true =>
    have hrows : (Report.Sheet.ofTable t).rows = [] := by
      simp [Report.Sheet.ofTable, Table.rows?, Table.rowCount, he]
    rw [hrows]
    exact iff_of_true ⟨_, rfl⟩ (by simp)
  | false =>
    rw [← table_ok_iff hc hm]
    constructor
    · rintro ⟨shown, h⟩
      obtain ⟨table, htable, -⟩ := bind_ok_iff.mp h
      exact ⟨table, htable⟩
    · rintro ⟨table, htable⟩
      exact ⟨_, bind_ok_iff.mpr ⟨table, htable, rfl⟩⟩

/-- **Showing a text fails exactly if** a table is drawn in which a truth value occurs whose glyph
is no text. -/
theorem display_ok_iff (hc : c.Prints) (hm : s.LacksMarkup) :
    (∃ shown, display c s json text = .ok shown) ↔
      (json = false → ∀ b, Shows s text b → ∃ glyph, s.glyph b = .str glyph) := by
  have ho := Analysis.outcome_ofText s text
  rw [display]
  cases ha : Analysis.ofText s text with
  | error e =>
    refine iff_of_true ⟨_, rfl⟩ fun _ b hs => ?_
    simpa [isTabulable_iff, ha] using hs.1
  | ok a =>
    cases json with
    | true => exact iff_of_true ⟨_, rfl⟩ nofun
    | false =>
      rw [ha] at ho
      simp only [Bool.false_eq_true, if_false, true_imp_iff]
      cases ho with
      | blank hb =>
        refine iff_of_true ⟨_, rfl⟩ fun b hs => ?_
        obtain ⟨-, f, hf, -⟩ := hs
        rw [hf.isBlank_eq_false] at hb
        cases hb
      | rejected hb hv =>
        refine iff_of_true ⟨_, rfl⟩ fun b hs => ?_
        simpa [isTabulable_iff, ha] using hs.1
      | tabulated hv hw hf hp =>
        have hshows : ∀ b, Shows s text b ↔ Formula.Takes _ b := fun b =>
          ⟨fun ⟨_, f, hf', ht⟩ => hf'.unique hf ▸ ht,
            fun ht => ⟨isTabulable_iff.mpr ⟨_, ha, rfl⟩, _, hf, ht⟩⟩
        rw [showAnalysis_ok_iff hc hm]
        simp only [Table.exists_mem_rows_iff, hshows]

end CommandLine
end Sentential
