/-
# What is read keeps its order

Between the tokens and the formula, operands go through groups, negations and three passes of joins,
and then through the walk that gathers the propositions. None of this loses, doubles or moves
anything that the table shows: from left to right, the leaves of the formula are the atoms of the
tokens and its connectives those of the tokens, so the propositions are the names in the order in
which one comes to them in the text. This order gives each proposition its place among the binary
digits of a row.

Key definitions: `Token.atoms`, `Token.names`, `Token.identifiers`.
Key theorems: `Token.names_map_upper`, `Derives.firstOccurrences_propositions`,
`Table.exists_compound_of_mem_drop`, `Table.order_of_reading`.
-/
import Sentential.Proofs.Counting

namespace Sentential

namespace Token

/-- The atoms among the tokens, names and literals. -/
def atoms (ts : List Token) : List String := (ts.filter (·.category = .atom)).map (·.text)

/-- The atoms that are no literals. -/
def names (ts : List Token) : List String := (atoms ts).filter fun s => s ≠ "0" ∧ s ≠ "1"

/-- The names that stand in a text made of the tokens, each of them in upper case. -/
def identifiers (ts : List Token) : List String :=
  (ts.filter fun t => t.category = .atom ∧ ¬ t.isLiteral).map (·.upper.text)

variable {t : Token} {ts : List Token} {s : String}

theorem literalValue?_eq_none_iff : literalValue? s = none ↔ s ≠ "0" ∧ s ≠ "1" := by
  by_cases h0 : s = "0" <;> by_cases h1 : s = "1" <;> simp [literalValue?, h0, h1]

theorem literalValue?_upper (h : t.IsSymbol) (ha : t.category = .atom) :
    literalValue? t.upper.text = literalValue? t.text := by
  rcases h with hr | ⟨-, hn | hb⟩
  · rw [upper_of_mem_reserved hr]
  · have hu := isName_of_isUpperName (isUpperName_upper ha hn)
    rw [literalValue?_of_isName hn, literalValue?_of_isName hu]
  · rw [upper_of_isUpperName ha (.inr hb)]

/-- The names among the tokens in upper case are those that stand in the text. -/
theorem names_map_upper (hs : ∀ t ∈ ts, t.IsSymbol) : names (ts.map upper) = identifiers ts := by
  have hname : ∀ t ∈ ts, (t.category = .atom ∧ t.upper.text ≠ "0" ∧ t.upper.text ≠ "1" ↔
      t.category = .atom ∧ ¬ t.isLiteral) := by
    intro t ht
    refine and_congr_right fun ha => ?_
    rw [← literalValue?_eq_none_iff, literalValue?_upper (hs t ht) ha]
    simp [isLiteral, ha]
  calc names (ts.map upper)
      = (ts.filter fun t => t.category = .atom ∧ t.upper.text ≠ "0" ∧ t.upper.text ≠ "1").map
          (·.upper.text) := by
        simp only [names, atoms, List.filter_map, List.map_map, List.filter_filter]
        congr 1
        exact List.filter_congr fun t _ => (Bool.and_comm ..).trans (Bool.decide_and ..).symm
    _ = identifiers ts := by
        rw [identifiers]
        congr 1
        exact List.filter_congr fun t ht => decide_eq_decide.mpr (hname t ht)

end Token

/-- The propositions of a derived formula are the names among the tokens, each at its first
occurrence. -/
theorem Derives.firstOccurrences_propositions {g : Grade} {ts : List Token} {f : Formula}
    (h : Derives g ts f) : FirstOccurrences (Token.names ts) f.propositions := by
  have hnames : Token.names ts = f.leaves.filter fun s => (literalValue? s).isNone := by
    rw [h.leaves_eq]
    refine List.filter_congr fun s _ => ?_
    rw [Bool.eq_iff_iff, decide_eq_true_iff, Option.isNone_iff_eq_none,
      Token.literalValue?_eq_none_iff]
  rw [hnames]
  exact firstOccurrences_eraseDups _

namespace Table

variable {style : Style} {names : List String} {fs : List Formula}

/-- Behind the columns of the propositions stand those of compounds. -/
theorem exists_compound_of_mem_drop {column : Column}
    (h : column ∈ (ofFormulas style names fs).columns.drop names.length) :
    ∃ s ∈ fs, column.name = s.render style := by
  have hdrop : (ofFormulas style names fs).columns.drop names.length =
      fs.eraseDups.map (Column.ofFormula style names) := by
    rw [ofFormulas, List.map_append, List.drop_left']
    rw [List.length_map, List.length_map]
  rw [hdrop] at h
  obtain ⟨s, hs, rfl⟩ := List.mem_map.mp h
  exact ⟨s, List.mem_eraseDups.mp hs, rfl⟩

/-- **Reading keeps the order of the tokens.** Whatever tokens a formula is read from, from left to
right its leaves are their atoms and its connectives their connectives, and its propositions are the
names among them, each at its first occurrence. In the table of an accepted text, the columns of the
propositions stand before all others, in the order in which their names, in upper case, first occur
in the text. -/
theorem order_of_reading :
    (∀ (limit : Int) (tokens : List Token) (f : Formula),
      Formula.ofTokens limit tokens = .ok (some f) →
        f.leaves = Token.atoms tokens ∧ f.connectives = Token.connectives tokens ∧
          FirstOccurrences (Token.names tokens) f.propositions) ∧
    ∀ text, Verdict.ofText text = .accepted → ∃ (ts : List Token) (names : List String),
      (Piece.sequence 0 text.toList).map Piece.lexeme = ts.map .token ∧
        FirstOccurrences (Token.identifiers ts) names ∧
        ∀ (style : Style) (m : Int), (Formula.weight (Token.ofText text) : Int) ≤ m →
          ∃ f, Formula.ofText m text = .ok (some f) ∧
            ∀ limit : Int, (names.length : Int) ≤ limit →
              ∃ t, ofRoot style limit (some f) = .ok t ∧ t.propositions = names ∧
                t.columns.take names.length = propositionColumns (2 ^ names.length) names ∧
                ∀ column ∈ t.columns.drop names.length,
                  ∃ s ∈ f.compounds, column.name = s.render style := by
  refine ⟨fun limit tokens f hf => ?_, fun text h => ?_⟩
  · obtain ⟨-, hd⟩ := Formula.ofTokens_eq_some_iff.mp hf
    exact ⟨hd.leaves_eq, hd.connectives_eq, hd.firstOccurrences_propositions⟩
  · obtain ⟨ts, hc, -, hs⟩ := Verdict.exists_cut_of_accepted h
    have hread : Token.ofText text = ts.map Token.upper := Token.ofText_of_cut hc hs
    obtain ⟨f, hd⟩ := Verdict.exists_derives_of_accepted h
    have hw := Verdict.isWellFormed_of_derives h hd
    have hfirst := hd.firstOccurrences_propositions
    rw [hread, Token.names_map_upper hc.isSymbol] at hfirst
    refine ⟨ts, f.propositions, Token.lexemes_eq_iff_cut.mpr hc, hfirst, fun style m hm => ?_⟩
    refine ⟨f, Formula.ofTokens_eq_some_iff.mpr ⟨hm, hd⟩, fun limit hlim => ?_⟩
    refine ⟨_, ofRoot_eq_ofFormulas hw hlim, rfl, ?_, fun column => exists_compound_of_mem_drop⟩
    exact take_columns f.nodup_propositions (fun name hn => (Formula.mem_propositions.mp hn).2) _

/-- The first name of the text comes first in the table, although its connective binds looser. -/
theorem order_of_reading_late_premise : Verdict.ofText "b || (a -> !B) && 1 <-> a" = .accepted ∧
    ∃ f, Formula.ofText 6 "b || (a -> !B) && 1 <-> a" = .ok (some f) ∧
      f.leaves = ["B", "A", "B", "1", "A"] ∧
      f.connectives = [.or, .implies, .not, .and, .xnor] ∧
      FirstOccurrences ["B", "A", "B", "A"] f.propositions ∧
      ∃ t, ofRoot .plain 2 (some f) = .ok t ∧ t.propositions = ["B", "A"] ∧
        t.columns.take 2 = propositionColumns 4 ["B", "A"] := by
  have hacc : Verdict.ofText "b || (a -> !B) && 1 <-> a" = .accepted := by decide +kernel
  have htokens : Token.ofText "b || (a -> !B) && 1 <-> a" = [.ofAtom "B", .ofConnective .or,
      .opening, .ofAtom "A", .ofConnective .implies, .ofConnective .not, .ofAtom "B", .closing,
      .ofConnective .and, .ofAtom "1", .ofConnective .xnor, .ofAtom "A"] := by decide +kernel
  have hpieces : (Piece.sequence 0 "b || (a -> !B) && 1 <-> a".toList).map Piece.lexeme =
      [Token.ofAtom "b", .ofConnective .or, .opening, .ofAtom "a", .ofConnective .implies,
        .ofConnective .not, .ofAtom "B", .closing, .ofConnective .and, .ofAtom "1",
        .ofConnective .xnor, .ofAtom "a"].map .token := by decide +kernel
  have hweight : (Formula.weight (Token.ofText "b || (a -> !B) && 1 <-> a") : Int) ≤ 6 := by
    rw [htokens]
    decide
  obtain ⟨ts, names, hts, hnames, htable⟩ := order_of_reading.2 _ hacc
  obtain ⟨f, hf, ht⟩ := htable .plain 6 hweight
  obtain ⟨hleaves, hconnectives, hfirst⟩ := order_of_reading.1 6 _ f hf
  rw [htokens] at hleaves hconnectives hfirst
  obtain rfl := (Token.lexemes_eq_iff_cut.mp hts).unique (Token.lexemes_eq_iff_cut.mp hpieces)
  obtain rfl : names = ["B", "A"] := hnames.unique (firstOccurrences_eraseDups _)
  obtain ⟨t, hroot, hprops, htake, -⟩ := ht 2 (by decide)
  exact ⟨hacc, f, hf, hleaves, hconnectives, hfirst, t, hroot, hprops, htake⟩

end Table
end Sentential
