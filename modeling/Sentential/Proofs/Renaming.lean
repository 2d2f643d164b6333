/-
# Renaming propositions

Names and glyphs only name the columns of a table. If the propositions of a formula are renamed,
no two of them to one name, the same subformulas are equal to each other, so the same columns are
shared, and each column of the renamed formula holds the values that the column at its place held
before, in whichever styles the two tables name their columns.

Key definitions: `renameLeaf`, `Formula.rename`, `IsRenaming`.
Key theorems: `eraseDups_map`, `Formula.rename_injOn`, `Formula.propositions_rename`,
`Formula.holds_rename`, `Table.values_rename`, `Table.values_of_renaming`.
-/
import Sentential.Proofs.Tabulation

namespace Sentential

/-- The name that a leaf has once the propositions are renamed; a literal keeps its own. -/
def renameLeaf (r : String → String) (name : String) : String :=
  if (literalValue? name).isSome then name else r name

/-- The formula with its propositions renamed. -/
def Formula.rename (r : String → String) : Formula → Formula
  | leaf name => leaf (renameLeaf r name)
  | unary c x => unary c (x.rename r)
  | binary c x y => binary c (x.rename r) (y.rename r)

/-- The propositions are renamed to names in upper case, no two of them to one. -/
structure IsRenaming (r : String → String) (propositions : List String) : Prop where
  isUpperName : ∀ name ∈ propositions, Token.IsUpperName (r name)
  injOn : Set.InjOn r {name | name ∈ propositions}

/-- The renaming tells the names apart and neither makes nor loses a literal. -/
structure RenamesLeaves (r : String → String) (names : List String) : Prop where
  literal : ∀ name ∈ names, literalValue? (renameLeaf r name) = literalValue? name
  injOn : Set.InjOn (renameLeaf r) {name | name ∈ names}

/-- Dropping repetitions commutes with a map that tells the elements apart. -/
theorem eraseDups_map {α β : Type} [BEq α] [LawfulBEq α] [BEq β] [LawfulBEq β] {g : α → β}
    {xs : List α} (h : Set.InjOn g {x | x ∈ xs}) :
    (xs.map g).eraseDups = xs.eraseDups.map g := by
  induction xs using List.reverseRecOn with
  | nil => rfl
  | append_singleton xs x ih =>
    have ih := ih (h.mono fun y hy => List.mem_append_left _ hy)
    have hx : g x ∈ xs.map g ↔ x ∈ xs := by
      constructor
      · intro hm
        obtain ⟨y, hy, hyx⟩ := List.mem_map.mp hm
        have hlast : x ∈ xs ++ [x] := List.mem_append_right _ (List.mem_singleton_self x)
        rwa [← h (List.mem_append_left _ hy) hlast hyx]
      · exact List.mem_map_of_mem
    rw [List.map_append, List.map_singleton]
    by_cases hm : x ∈ xs
    · rw [eraseDups_concat_of_mem (hx.mpr hm), eraseDups_concat_of_mem hm, ih]
    · rw [eraseDups_concat_of_notMem (mt hx.mp hm), eraseDups_concat_of_notMem hm, ih,
        List.map_append, List.map_singleton]

variable {r : String → String} {names : List String} {style style' : Style} {f s : Formula}

theorem renameLeaf_of_literal {name : String} {b : Bool} (h : literalValue? name = some b) :
    renameLeaf r name = name := by
  simp [renameLeaf, h]

theorem renameLeaf_of_proposition {name : String} (h : literalValue? name = none) :
    renameLeaf r name = r name := by
  simp [renameLeaf, h]

theorem IsRenaming.renamesLeaves (h : IsRenaming r f.propositions) : RenamesLeaves r f.leaves := by
  have hliteral : ∀ name ∈ f.leaves, literalValue? (renameLeaf r name) = literalValue? name := by
    intro name hn
    cases hl : literalValue? name with
    | some b => rw [renameLeaf_of_literal hl, hl]
    | none =>
      have hp := Formula.mem_propositions.mpr ⟨hn, hl⟩
      rw [renameLeaf_of_proposition hl]
      exact Token.literalValue?_of_isName (Token.isName_of_isUpperName (h.isUpperName name hp))
  refine ⟨hliteral, fun a ha b hb hab => ?_⟩
  have hlit : literalValue? a = literalValue? b := by
    rw [← hliteral a ha, ← hliteral b hb, hab]
  cases hl : literalValue? a with
  | some v => rwa [renameLeaf_of_literal hl, renameLeaf_of_literal (hlit ▸ hl)] at hab
  | none =>
    have hl' : literalValue? b = none := hlit ▸ hl
    have ha := Formula.mem_propositions.mpr ⟨ha, hl⟩
    have hb := Formula.mem_propositions.mpr ⟨hb, hl'⟩
    rw [renameLeaf_of_proposition hl, renameLeaf_of_proposition hl'] at hab
    exact h.injOn ha hb hab

namespace Formula

/-! ### The renamed formula -/

theorem leaves_rename (r : String → String) (f : Formula) :
    (f.rename r).leaves = f.leaves.map (renameLeaf r) := by
  induction f with
  | leaf name => rfl
  | unary c x ih => exact ih
  | binary c x y ihx ihy => rw [rename, leaves, leaves, List.map_append, ihx, ihy]

theorem compounds_rename (r : String → String) (f : Formula) :
    (f.rename r).compounds = f.compounds.map (rename r) := by
  induction f with
  | leaf name => rfl
  | unary c x ih => simp [rename, compounds, ih]
  | binary c x y ihx ihy => simp [rename, compounds, ihx, ihy]

/-- Formulas over names that are told apart are told apart. -/
theorem rename_injOn (h : RenamesLeaves r names) :
    Set.InjOn (rename r) {s | s.leaves ⊆ names} := by
  intro s hs
  induction s with
  | leaf name =>
    intro s' hs' he
    cases s' with
    | leaf name' =>
      have he := leaf.inj he
      rw [h.injOn (hs (List.mem_singleton_self name)) (hs' (List.mem_singleton_self name')) he]
    | unary | binary => cases he
  | unary c x ih =>
    intro s' hs' he
    cases s' with
    | unary c' x' =>
      obtain ⟨rfl, hx⟩ := unary.inj he
      have hsx' : x'.leaves ⊆ names := hs'
      rw [ih hs hsx' hx]
    | leaf | binary => cases he
  | binary c x y ihx ihy =>
    intro s' hs' he
    cases s' with
    | binary c' x' y' =>
      obtain ⟨rfl, hx, hy⟩ := binary.inj he
      obtain ⟨hsx, hsy⟩ := List.append_subset.mp hs
      obtain ⟨hsx', hsy'⟩ := List.append_subset.mp hs'
      rw [ihx hsx hsx' hx, ihy hsy hsy' hy]
    | leaf | unary => cases he

theorem isProper_rename (h : f.IsProper) : (f.rename r).IsProper := by
  induction f with
  | leaf name => trivial
  | unary c x ih => exact ⟨h.1, ih h.2⟩
  | binary c x y ihx ihy => exact ⟨h.1, ihx h.2.1, ihy h.2.2⟩

theorem isWellFormed_rename (hf : f.IsWellFormed) (h : IsRenaming r f.propositions) :
    (f.rename r).IsWellFormed := by
  refine ⟨isProper_rename hf.1, fun name hn => ?_⟩
  rw [leaves_rename] at hn
  obtain ⟨old, ho, rfl⟩ := List.mem_map.mp hn
  cases hl : literalValue? old with
  | some b =>
    rw [renameLeaf_of_literal hl]
    exact hf.2 old ho
  | none =>
    rw [renameLeaf_of_proposition hl]
    exact .inl (h.isUpperName old (mem_propositions.mpr ⟨ho, hl⟩))

/-- The propositions are renamed one by one, in the order they have. -/
theorem propositions_rename (h : RenamesLeaves r f.leaves) :
    (f.rename r).propositions = f.propositions.map r := by
  have hfilter : (f.leaves.map (renameLeaf r)).filter (fun name => (literalValue? name).isNone) =
      (f.leaves.filter fun name => (literalValue? name).isNone).map (renameLeaf r) := by
    rw [List.filter_map]
    congr 1
    refine List.filter_congr fun name hn => ?_
    rw [Function.comp_apply, h.literal name hn]
  have hinj : Set.InjOn (renameLeaf r)
      {name | name ∈ f.leaves.filter fun name => (literalValue? name).isNone} :=
    h.injOn.mono fun name hn => (List.mem_filter.mp hn).1
  rw [propositions, distinctNames, leaves_rename, hfilter, eraseDups_map hinj]
  refine List.map_congr_left fun name hn => ?_
  exact renameLeaf_of_proposition (mem_propositions.mp hn).2

/-- A renamed formula holds where the formula does, with each value under its new name. -/
theorem holds_rename {a b : String → Bool} (h : ∀ name ∈ s.leaves,
    literalValue? (renameLeaf r name) = literalValue? name ∧
      (literalValue? name = none → b (r name) = a name)) :
    (s.rename r).holds b = s.holds a := by
  induction s with
  | leaf name =>
    obtain ⟨hl, hv⟩ := h name (List.mem_singleton_self name)
    rw [rename, holds, holds, hl]
    cases hn : literalValue? name with
    | some v => rfl
    | none =>
      rw [renameLeaf_of_proposition hn]
      exact hv hn
  | unary c x ih => rw [rename, holds, holds, ih h]
  | binary c x y ihx ihy =>
    rw [rename, holds, holds, ihx fun name hn => h name (List.mem_append_left _ hn),
      ihy fun name hn => h name (List.mem_append_right _ hn)]

end Formula

namespace Table

/-! ### The table of the renamed formula -/

theorem valueIn_map (row : Nat) (hr : Set.InjOn r {name | name ∈ names}) {name : String}
    (hn : name ∈ names) : valueIn row (names.map r) (r name) = valueIn row names name := by
  induction names with
  | nil => cases hn
  | cons other names ih =>
    rw [List.map_cons, valueIn, valueIn, List.length_map]
    by_cases ho : other = name
    · rw [if_pos ho, if_pos (congrArg r ho)]
    · have hr' : r other ≠ r name := fun h => ho (hr (List.mem_cons_self ..) hn h)
      have hn' : name ∈ names := by
        rcases List.mem_cons.mp hn with h | h
        · exact absurd h.symm ho
        · exact h
      rw [if_neg ho, if_neg hr']
      exact ih (hr.mono fun y hy => List.mem_cons_of_mem _ hy) hn'

theorem values_ofFormula_rename (h : IsRenaming r f.propositions) (hs : s.leaves ⊆ f.leaves) :
    (Column.ofFormula style' (f.propositions.map r) (s.rename r)).values =
      (Column.ofFormula style f.propositions s).values := by
  have hrow : ∀ row, (s.rename r).holds (valueIn row (f.propositions.map r)) =
      s.holds (valueIn row f.propositions) := by
    intro row
    refine Formula.holds_rename fun name hn => ⟨h.renamesLeaves.literal name (hs hn), fun hl => ?_⟩
    exact valueIn_map row h.injOn (Formula.mem_propositions.mpr ⟨hs hn, hl⟩)
  apply Array.ext
  · simp [Column.ofFormula]
  · simp [Column.ofFormula, hrow]

/-- The columns of the renamed formula hold the same values, one by one. -/
theorem values_rename (h : IsRenaming r f.propositions) :
    (ofFormulas style' (f.rename r).propositions (f.rename r).compounds).columns.map Column.values =
      (ofFormulas style f.propositions f.compounds).columns.map Column.values := by
  have hleaves : ∀ s ∈ f.propositions.map Formula.leaf ++ f.compounds.eraseDups,
      s.leaves ⊆ f.leaves := by
    intro s hs
    rcases List.mem_append.mp hs with hs | hs
    · obtain ⟨name, hn, rfl⟩ := List.mem_map.mp hs
      exact List.cons_subset.mpr ⟨(Formula.mem_propositions.mp hn).1, List.nil_subset _⟩
    · exact Formula.leaves_subset (Formula.mem_compounds.mp (List.mem_eraseDups.mp hs)).1
  have hcompounds : (f.rename r).compounds.eraseDups =
      f.compounds.eraseDups.map (Formula.rename r) := by
    rw [Formula.compounds_rename]
    refine eraseDups_map ((Formula.rename_injOn h.renamesLeaves).mono fun s hs => ?_)
    exact Formula.leaves_subset (Formula.mem_compounds.mp hs).1
  have hpropositions : (f.propositions.map r).map Formula.leaf =
      (f.propositions.map Formula.leaf).map (Formula.rename r) := by
    rw [List.map_map, List.map_map]
    refine List.map_congr_left fun name hn => ?_
    rw [Function.comp_apply, Function.comp_apply, Formula.rename,
      renameLeaf_of_proposition (Formula.mem_propositions.mp hn).2]
  rw [ofFormulas, ofFormulas, Formula.propositions_rename h.renamesLeaves, hcompounds,
    hpropositions, ← List.map_append, List.map_map, List.map_map, List.map_map]
  exact List.map_congr_left fun s hs => values_ofFormula_rename h (hleaves s hs)

/-- How many rows a table has depends on the number of its propositions, and on whether it has
columns. -/
theorem rowCount_congr {t t' : Table} (hp : t'.propositions.length = t.propositions.length)
    (hc : t'.columns.length = t.columns.length) : t'.rowCount = t.rowCount := by
  have hempty : t'.isEmpty = t.isEmpty := by
    rw [isEmpty, isEmpty, Bool.eq_iff_iff, List.isEmpty_iff_length_eq_zero,
      List.isEmpty_iff_length_eq_zero, hc]
  rw [rowCount, rowCount, height, height, hempty, hp]

theorem rows?_congr {t t' : Table} (hv : t'.columns.map Column.values = t.columns.map Column.values)
    (hc : t'.rowCount = t.rowCount) : t'.rows? = t.rows? := by
  have hrow : ∀ (t : Table) (row : Int), t.row? row =
      (t.columns.map Column.values).mapM fun values => Column.value? ⟨"", values⟩ row := by
    intro t row
    rw [List.mapM_map]
    rfl
  simp only [rows?, hrow, hv, hc]

/-- **Truth values do not depend on names and glyphs.** If the propositions of an accepted formula
are renamed to names in upper case that differ, then in any two styles the two tables have as many
columns and rows, with the same values in the same places, and the propositions correspond in the
same order. -/
theorem values_of_renaming {text : String} (h : Verdict.ofText text = .accepted) {m : Int}
    (hm : (Formula.weight (Token.ofText text) : Int) ≤ m) :
    ∃ f, Formula.ofText m text = .ok (some f) ∧
      ∀ r : String → String, IsRenaming r f.propositions → ∀ style style' : Style,
        ∀ limit limit' : Int, (f.propositions.length : Int) ≤ limit →
          ((f.rename r).propositions.length : Int) ≤ limit' →
          ∃ t t', ofRoot style limit (some f) = .ok t ∧
            ofRoot style' limit' (some (f.rename r)) = .ok t' ∧
            t.propositions = f.propositions ∧ t'.propositions = t.propositions.map r ∧
            t'.columns.length = t.columns.length ∧ t'.rowCount = t.rowCount ∧
            t'.columns.map Column.values = t.columns.map Column.values ∧ t'.rows? = t.rows? := by
  obtain ⟨f, hf, hw⟩ := Verdict.exists_formula_of_accepted h hm
  refine ⟨f, hf, fun r hr style style' limit limit' hlim hlim' => ?_⟩
  have hvalues : (ofFormulas style' _ _).columns.map Column.values =
      (ofFormulas style _ _).columns.map Column.values := values_rename hr
  have hpropositions := Formula.propositions_rename hr.renamesLeaves
  have hlength := congrArg List.length hvalues
  rw [List.length_map, List.length_map] at hlength
  have hrows : (ofFormulas style' (f.rename r).propositions (f.rename r).compounds).rowCount =
      (ofFormulas style f.propositions f.compounds).rowCount := by
    refine rowCount_congr ?_ hlength
    show (f.rename r).propositions.length = f.propositions.length
    rw [hpropositions, List.length_map]
  exact ⟨_, _, ofRoot_eq_ofFormulas hw hlim,
    ofRoot_eq_ofFormulas (Formula.isWellFormed_rename hw hr) hlim', rfl, hpropositions, hlength,
    hrows, hvalues, rows?_congr hvalues hrows⟩

/-- Two propositions that change their names change no value of a table, typeset or not. -/
theorem values_of_renaming_exchange : Verdict.ofText "p -> !q && p" = .accepted ∧
    ∃ (f : Formula) (r : String → String) (t t' : Table),
      Formula.ofText 3 "p -> !q && p" = .ok (some f) ∧ IsRenaming r f.propositions ∧
      (f.rename r).render .latex = "Q \\Rightarrow \\neg P \\land Q" ∧
      ofRoot .plain 2 (some f) = .ok t ∧ ofRoot .latex 2 (some (f.rename r)) = .ok t' ∧
      t'.propositions = ["Q", "P"] ∧
      t'.columns.map Column.values = t.columns.map Column.values := by
  have hacc : Verdict.ofText "p -> !q && p" = .accepted := by decide +kernel
  have hweight : (Formula.weight (Token.ofText "p -> !q && p") : Int) ≤ 3 := by decide +kernel
  have hread : Formula.ofText 3 "p -> !q && p" = .ok (some (.binary .and
      (.binary .implies (.leaf "P") (.unary .not (.leaf "Q"))) (.leaf "P"))) := by decide +kernel
  let r : String → String := fun name => if name = "P" then "Q" else "P"
  obtain ⟨f, hf, h⟩ := values_of_renaming hacc hweight
  obtain rfl := Option.some.inj (Except.ok.inj (hread.symm.trans hf))
  have hp : (Formula.binary .and (.binary .implies (.leaf "P") (.unary .not (.leaf "Q")))
      (.leaf "P")).propositions = ["P", "Q"] := by decide
  have hr : IsRenaming r ["P", "Q"] := by
    refine ⟨fun name hn => ?_, fun a ha b hb hab => ?_⟩
    · by_cases hP : name = "P"
      · exact ⟨'Q', [], by simp [r, hP], by decide, by simp⟩
      · exact ⟨'P', [], by simp [r, hP], by decide, by simp⟩
    · simp only [Set.mem_ofPred_eq, List.mem_cons, List.not_mem_nil, or_false] at ha hb
      rcases ha with rfl | rfl <;> rcases hb with rfl | rfl <;> simp_all [r]
  rw [← hp] at hr
  obtain ⟨t, t', ht, ht', htp, htp', -, -, hv, -⟩ :=
    h r hr .plain .latex 2 2 (by decide) (by decide)
  rw [htp, hp] at htp'
  exact ⟨hacc, _, r, t, t', hf, hr, by decide, ht, ht', htp', hv⟩

end Table
end Sentential
