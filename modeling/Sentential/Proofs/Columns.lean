/-
# The columns of a table

Which columns the table of a formula has. The propositions come first; then each compound has one
column, however often it occurs, in the order in which the compounds are first completed, operands
before what they are operands of. Columns are found by the renderings of their formulas, which tell
formulas apart, so equal subformulas share a column and others never do, and no name comes twice,
nor does a header. All columns are as long as there are assignments to the propositions; only a
formula that is a literal has nothing to show.

Key theorems: `Style.display_injective`, `Formula.render_distinguishes`, `Table.names_ofFormulas`,
`Table.nodup_names`, `Table.nodup_headers`, `Table.column?_eq_iff`, `Table.isEmpty_iff`,
`Table.rows?_ofFormulas`, `Table.columns_of_formula`.
-/
import Sentential.Proofs.Tabulation

namespace Sentential

/-- A header tells which name it shows. -/
theorem Style.display_injective (style : Style) : Function.Injective style.display := by
  intro s s' h
  cases style with
  | source | plain => exact h
  | latex =>
    have hl := congrArg String.toList h
    simp only [display, mathMode, String.toList_append, List.append_assoc] at hl
    exact String.toList_inj.mp (List.append_cancel_right (List.append_cancel_left hl))

theorem Column.value?_natCast (column : Column) (row : Nat) :
    column.value? row = column.values[row]? := by
  have hneg : ¬ (row : Int) < 0 := by omega
  rw [value?]
  simp only [hneg, if_false, Int.toNat_natCast]

namespace Formula

theorem exists_compound_of_mem_operations {style : Style} {f : Formula} {op : Operation}
    (h : op ∈ f.operations style) : ∃ s ∈ f.compounds, op.name = s.render style := by
  obtain ⟨s, hs, hop⟩ := List.mem_filterMap.mp h
  obtain ⟨c, -, rfl⟩ := Option.map_eq_some_iff.mp hop
  exact ⟨s, hs, rfl⟩

/-- **Renderings tell formulas apart.** In every style, well-formed formulas are equal if they are
rendered equal. So a compound is never rendered like a leaf, and the column of an operation never
has the name of a proposition. -/
theorem render_distinguishes {f g : Formula} (hf : f.IsWellFormed) (hg : g.IsWellFormed)
    (style : Style) : (f.render style = g.render style ↔ f = g) ∧
      (f.connective?.isSome → g.connective? = none → f.render style ≠ g.render style) ∧
      ∀ op ∈ f.operations style, ∀ name ∈ g.propositions, op.name ≠ name := by
  refine ⟨⟨eq_of_render_eq hf hg, fun h => h ▸ rfl⟩, fun hc hl h => ?_, fun op hop name hn h => ?_⟩
  · obtain rfl := eq_of_render_eq hf hg h
    rw [hl] at hc
    cases hc
  · obtain ⟨s, hs, hname⟩ := exists_compound_of_mem_operations hop
    obtain ⟨hm, hc⟩ := mem_compounds.mp hs
    have hleaf : (leaf name).IsWellFormed :=
      hg.of_mem_subformulas (leaf_mem_subformulas.mpr (mem_propositions.mp hn).1)
    have hr : s.render style = (leaf name).render style := hname.symm.trans h
    obtain rfl := eq_of_render_eq (hf.of_mem_subformulas hm) hleaf hr
    cases hc

/-- Typeset, a conditional with a conditional as its conclusion is told from one with a conditional
as its premise, and neither is named like a proposition. -/
theorem render_distinguishes_groupings :
    (binary .implies (leaf "P") (binary .implies (leaf "Q") (leaf "R"))).render .latex ≠
      (binary .implies (binary .implies (leaf "P") (leaf "Q")) (leaf "R")).render .latex ∧
    ∀ op ∈ (binary .implies (leaf "P") (binary .implies (leaf "Q") (leaf "R"))).operations .latex,
      op.name ≠ "P" := by
  have read : ∀ {text f}, Verdict.ofText text = .accepted → ofText 3 text = .ok (some f) →
      f.IsWellFormed := fun hacc hf =>
    Verdict.isWellFormed_of_derives hacc (ofTokens_eq_some_iff.mp hf).2
  have hright : ofText 3 "P -> (Q -> R)" =
      .ok (some (binary .implies (leaf "P") (binary .implies (leaf "Q") (leaf "R")))) := by
    decide +kernel
  have hleft : ofText 3 "P -> Q -> R" =
      .ok (some (binary .implies (binary .implies (leaf "P") (leaf "Q")) (leaf "R"))) := by
    decide +kernel
  obtain ⟨hiff, -, hnames⟩ := render_distinguishes (read (by decide +kernel) hright)
    (read (by decide +kernel) hleft) .latex
  exact ⟨fun h => (nomatch hiff.mp h), fun op hop => hnames op hop "P" (by decide)⟩

end Formula

namespace Table

variable {style : Style} {names : List String} {fs : List Formula} {f s : Formula}

theorem names_ofFormulas : (ofFormulas style names fs).columns.map Column.name =
    names ++ fs.eraseDups.map (Formula.render style) := by
  rw [ofFormulas, List.map_map, List.map_append, List.map_map]
  congr 1
  exact List.map_id names

/-- No two columns have one name. -/
theorem nodup_names (hn : names.Nodup) (hfs : Nameable names fs)
    (hc : ∀ g ∈ fs, g.connective?.isSome) :
    ((ofFormulas style names fs).columns.map Column.name).Nodup := by
  have hleaves : (names.map Formula.leaf).Nodup := hn.map fun _ _ h => Formula.leaf.inj h
  have hdisjoint : (names.map Formula.leaf).Disjoint fs.eraseDups := by
    intro g hg hg'
    obtain ⟨name, -, rfl⟩ := List.mem_map.mp hg
    cases hc _ (List.mem_eraseDups.mp hg')
  have hall := List.Nodup.append hleaves (nodup_eraseDups fs) hdisjoint
  have hwell : ∀ g ∈ names.map Formula.leaf ++ fs.eraseDups, g.IsWellFormed := by
    intro g hg
    refine hfs g ?_
    simpa [List.mem_eraseDups] using hg
  rw [ofFormulas, List.map_map]
  exact hall.map_on fun g hg g' hg' h => Formula.eq_of_render_eq (hwell g hg) (hwell g' hg') h

/-- No two columns have one header. -/
theorem nodup_headers {t : Table} (h : (t.columns.map Column.name).Nodup) : t.headers.Nodup := by
  have hh : t.headers = (t.columns.map Column.name).map t.style.display := by
    rw [headers, List.map_map]
    rfl
  rw [hh]
  exact h.map t.style.display_injective

theorem size_ofFormulas {column : Column} (h : column ∈ (ofFormulas style names fs).columns) :
    column.values.size = 2 ^ names.length := by
  obtain ⟨g, -, rfl⟩ := List.mem_map.mp h
  exact Array.size_ofFn

/-- Compounds of a formula share a column exactly if they are equal. -/
theorem column?_eq_iff (hf : f.IsWellFormed) {s s' : Formula} (hs : s ∈ f.compounds)
    (hs' : s' ∈ f.compounds) :
    (ofFormulas style f.propositions f.compounds).column? (s.render style) =
      (ofFormulas style f.propositions f.compounds).column? (s'.render style) ↔ s = s' := by
  have hcolumn : ∀ g ∈ f.compounds,
      (ofFormulas style f.propositions f.compounds).column? (g.render style) =
        some (Column.ofFormula style f.propositions g) := by
    intro g hg
    obtain ⟨hm, hc⟩ := Formula.mem_compounds.mp hg
    refine column?_of_mem_subformulas hf hm ?_
    cases g with
    | leaf name => cases hc
    | unary | binary => rfl
  have hwell : ∀ g ∈ f.compounds, g.IsWellFormed := fun g hg =>
    hf.of_mem_subformulas (Formula.mem_compounds.mp hg).1
  constructor
  · intro h
    rw [hcolumn s hs, hcolumn s' hs'] at h
    exact Formula.eq_of_render_eq (hwell s hs) (hwell s' hs') (Column.mk.inj (Option.some.inj h)).1
  · rintro rfl
    rfl

/-- The table of a formula is empty exactly if the formula is a literal. -/
theorem isEmpty_iff : (ofFormulas style f.propositions f.compounds).isEmpty = true ↔
    f.literal?.isSome := by
  rw [isEmpty, List.isEmpty_iff, ofFormulas, List.map_eq_nil_iff, List.append_eq_nil_iff,
    List.map_eq_nil_iff]
  have hdups : f.compounds.eraseDups = [] ↔ f.compounds = [] := by
    simp only [List.eq_nil_iff_forall_not_mem, List.mem_eraseDups]
  rw [hdups]
  cases f with
  | leaf name =>
    have hp : (Formula.leaf name).propositions = [] ↔ (literalValue? name).isSome := by
      rw [List.eq_nil_iff_forall_not_mem]
      cases hl : literalValue? name <;> simp [Formula.mem_propositions, Formula.leaves, hl]
    simp [hp, Formula.compounds, Formula.literal?]
  | unary | binary => simp [Formula.compounds, Formula.literal?]

theorem rowCount_ofFormulas : (ofFormulas style f.propositions f.compounds).rowCount =
    if f.literal?.isSome then 0 else 2 ^ f.propositions.length := by
  simp only [rowCount, isEmpty_iff]
  rfl

theorem value?_ofFormula {row : Nat} (hrow : row < 2 ^ names.length) :
    (Column.ofFormula style names s).value? row = some (s.holds (valueIn row names)) :=
  (Column.value?_natCast _ row).trans (values_ofFormula hrow)

/-- A row holds the truth values of the formulas, in the order of their columns. -/
theorem rows?_ofFormulas : (ofFormulas style names fs).rows? =
    some ((List.range (ofFormulas style names fs).rowCount).map fun row =>
      (names.map Formula.leaf ++ fs.eraseDups).map fun s => s.holds (valueIn row names)) := by
  refine mapM_eq_pure fun row hrow => ?_
  have hlt : row < 2 ^ names.length := by
    refine Nat.lt_of_lt_of_le (List.mem_range.mp hrow) ?_
    rw [rowCount]
    split
    · exact Nat.zero_le _
    · exact Nat.le_refl _
  rw [row?, ofFormulas, List.mapM_map]
  exact mapM_eq_pure fun s _ => value?_ofFormula hlt

/-- **The columns of a table** are those of the propositions and then of the compounds, each named
by its rendering and at the place of its first occurrence. Names and headers are told apart, equal
compounds share a column and others do not, all columns have a value for each assignment, and only
the table of a literal is empty. -/
theorem columns_of_formula {text : String} (h : Verdict.ofText text = .accepted) (style : Style)
    {m : Int} (hm : (Formula.weight (Token.ofText text) : Int) ≤ m) :
    ∃ f distinct, Formula.ofText m text = .ok (some f) ∧ FirstOccurrences f.compounds distinct ∧
      ∀ limit : Int, (f.propositions.length : Int) ≤ limit →
        ∃ t, ofRoot style limit (some f) = .ok t ∧
          t.columns.map Column.name = f.propositions ++ distinct.map (Formula.render style) ∧
          (t.columns.map Column.name).Nodup ∧ t.headers.Nodup ∧
          t.columns.length = f.propositions.length + distinct.length ∧
          (∀ s ∈ f.compounds, ∀ s' ∈ f.compounds,
            (t.column? (s.render style) = t.column? (s'.render style) ↔ s = s')) ∧
          (∀ column ∈ t.columns, column.values.size = 2 ^ f.propositions.length) ∧
          (t.isEmpty = true ↔ f.literal?.isSome) ∧
          t.rowCount = if f.literal?.isSome then 0 else 2 ^ f.propositions.length := by
  obtain ⟨f, hf, hw⟩ := Verdict.exists_formula_of_accepted h hm
  refine ⟨f, f.compounds.eraseDups, hf, firstOccurrences_eraseDups _, fun limit hlim => ?_⟩
  have hnames : ((ofFormulas style f.propositions f.compounds).columns.map Column.name).Nodup :=
    nodup_names f.nodup_propositions (nameable_compounds hw) fun g hg =>
      (Formula.mem_compounds.mp hg).2
  refine ⟨_, ofRoot_eq_ofFormulas hw hlim, names_ofFormulas, hnames, nodup_headers hnames, ?_,
    fun s hs s' hs' => column?_eq_iff hw hs hs', fun column hc => size_ofFormulas hc, isEmpty_iff,
    rowCount_ofFormulas⟩
  simp [ofFormulas]

/-- A negation that occurs twice has one column, before the conjunction it first occurs in. -/
theorem columns_of_formula_repeated_negation : Verdict.ofText "!p && q || !p" = .accepted ∧
    Formula.ofText 4 "!p && q || !p" = .ok (some (.binary .or
      (.binary .and (.unary .not (.leaf "P")) (.leaf "Q")) (.unary .not (.leaf "P")))) ∧
    ∃ t, ofRoot .plain 2 (some (.binary .or
        (.binary .and (.unary .not (.leaf "P")) (.leaf "Q")) (.unary .not (.leaf "P")))) = .ok t ∧
      t.columns.map Column.name = ["P", "Q", "¬P", "¬P ∧ Q", "¬P ∧ Q ∨ ¬P"] ∧ t.rowCount = 4 := by
  have hacc : Verdict.ofText "!p && q || !p" = .accepted := by decide +kernel
  have hread : Formula.ofText 4 "!p && q || !p" = .ok (some (.binary .or
      (.binary .and (.unary .not (.leaf "P")) (.leaf "Q")) (.unary .not (.leaf "P")))) := by
    decide +kernel
  have hweight : (Formula.weight (Token.ofText "!p && q || !p") : Int) ≤ 4 := by decide +kernel
  obtain ⟨f, distinct, hf, hd, h⟩ := columns_of_formula hacc .plain hweight
  obtain rfl := Option.some.inj (Except.ok.inj (hread.symm.trans hf))
  obtain rfl := hd.unique (firstOccurrences_eraseDups _)
  obtain ⟨t, ht, hnames, -, -, -, -, -, -, hrows⟩ := h 2 (by decide)
  exact ⟨hacc, hread, t, ht, hnames.trans (by decide), hrows.trans (by decide)⟩

end Table
end Sentential
