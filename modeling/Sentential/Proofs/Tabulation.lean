/-
# The table of a formula

The table of a well-formed formula, said without the way in which it is computed: a column for each
proposition, then one for each compound, at its first occurrence, and in each row the truth value
of what the column stands for. The computation reaches it because a column is found by the
rendering of its formula, which no other formula has, and because every operand is a literal, a
proposition or a compound met before.

Key definitions: `Table.valueIn`, `Column.ofFormula`, `Table.ofFormulas`, `Table.assignment`.
Key theorems: `Table.column?_ofFormulas`, `Table.add_ofFormulas`, `Table.addAll_ofFormulas`,
`Table.ofRoot_eq_ofFormulas`, `Table.evaluate_assignment`, `Table.column_of_subformula`.
-/
import Sentential.Proofs.Rendering
import Sentential.Proofs.Subformulas
import Sentential.Table

namespace Sentential

theorem Formula.IsWellFormed.of_mem_subformulas {f s : Formula} (h : f.IsWellFormed)
    (hs : s ∈ f.subformulas) : s.IsWellFormed :=
  ⟨h.1.of_mem_subformulas hs, fun name hn => h.2 name (leaves_subset hs hn)⟩

namespace Table

/-- The truth value of a name in a row, where the first name changes slowest. -/
def valueIn (row : Nat) : List String → String → Bool
  | [], _ => false
  | other :: names, name =>
    if other = name then decide (2 ^ names.length ≤ row % 2 ^ (names.length + 1))
    else valueIn row names name

end Table

/-- The column of a formula in a table with the given propositions. -/
def Column.ofFormula (style : Style) (names : List String) (f : Formula) : Column :=
  ⟨f.render style, Array.ofFn fun row : Fin (2 ^ names.length) => f.holds (Table.valueIn row names)⟩

namespace Table

/-- The table with a column for each proposition and for each of the formulas, at its first
occurrence. -/
def ofFormulas (style : Style) (names : List String) (fs : List Formula) : Table :=
  ⟨style, names, (names.map Formula.leaf ++ fs.eraseDups).map (Column.ofFormula style names)⟩

/-- The propositions and the formulas are well formed, so that their renderings tell them apart. -/
def Nameable (names : List String) (fs : List Formula) : Prop :=
  ∀ g ∈ names.map Formula.leaf ++ fs, g.IsWellFormed

/-- The truth values of the propositions in a row, each read off its own column. -/
def assignment (t : Table) (row : Nat) : Assignment := fun name =>
  if name ∈ t.propositions then (t.column? name).bind fun column => column.values[row]? else none

variable {style : Style} {names : List String} {fs : List Formula} {f s x : Formula}
  {n row : Nat}

/-! ### Finding a column -/

theorem find?_ofFormula (hfs : ∀ g ∈ fs, g.IsWellFormed) (hs : s.IsWellFormed) :
    (fs.map (Column.ofFormula style names)).find? (·.name = s.render style) =
      if s ∈ fs then some (Column.ofFormula style names s) else none := by
  induction fs with
  | nil => rfl
  | cons g fs ih =>
    rw [List.map_cons, List.find?_cons]
    by_cases hg : g = s
    · subst hg
      rw [if_pos (List.mem_cons_self ..)]
      simp [Column.ofFormula]
    · have hne : g.render style ≠ s.render style := fun h =>
        hg (Formula.eq_of_render_eq (hfs g (List.mem_cons_self ..)) hs h)
      have hm : s ∈ g :: fs ↔ s ∈ fs := by simp [Ne.symm hg]
      simp only [Column.ofFormula, hne, decide_false, hm]
      exact ih fun k hk => hfs k (List.mem_cons_of_mem _ hk)

/-- The column with the name of a formula is its own. -/
theorem column?_ofFormulas (hfs : Nameable names fs)
    (hs : s.IsWellFormed) : (ofFormulas style names fs).column? (s.render style) =
      if s ∈ names.map Formula.leaf ++ fs then some (Column.ofFormula style names s) else none := by
  have hm : ∀ g, g ∈ names.map Formula.leaf ++ fs.eraseDups ↔
      g ∈ names.map Formula.leaf ++ fs := fun g => by simp [List.mem_eraseDups]
  simp only [column?, ofFormulas]
  rw [find?_ofFormula (fun g hg => hfs g ((hm g).mp hg)) hs]
  simp only [hm]

/-! ### Computing a column -/

theorem sharedHeight_replicate {columns : List (Array Bool)} (hne : columns ≠ [])
    (hs : ∀ values ∈ columns, values.size = n) : sharedHeight columns = n := by
  induction columns with
  | nil => exact absurd rfl hne
  | cons values columns ih =>
    have hv := hs values (List.mem_cons_self ..)
    cases columns with
    | nil => exact hv
    | cons values' columns =>
      rw [sharedHeight, hv, ih (List.cons_ne_nil _ _) fun v hm => hs v (List.mem_cons_of_mem _ hm),
        Nat.min_self]
      exact fun h => nomatch h

theorem applyRows_ofFn {c : Connective} {columns : List (Nat → Bool)} {value : Nat → Bool}
    (hne : columns ≠ []) (hv : ∀ row, c.apply (columns.map (· row)) = .ok (value row)) :
    applyRows c (columns.map fun g => Array.ofFn fun row : Fin n => g row) =
      .ok (Array.ofFn fun row : Fin n => value row) := by
  have hh : sharedHeight (columns.map fun g => Array.ofFn fun row : Fin n => g row) =
      n := by
    refine sharedHeight_replicate (by simpa using hne) fun values hm => ?_
    obtain ⟨g, -, rfl⟩ := List.mem_map.mp hm
    exact Array.size_ofFn
  have hrow : ∀ row ∈ List.range n,
      (c.apply ((columns.map fun g => Array.ofFn fun row : Fin n => g row).map
        fun values => values.getD row false)).mapError ColumnError.apply = .ok (value row) := by
    intro row hrow
    have hlt := List.mem_range.mp hrow
    have hg : (columns.map fun g => Array.ofFn fun row : Fin n => g row).map
        (fun values => values.getD row false) = columns.map (· row) := by
      rw [List.map_map]
      refine List.map_congr_left fun g _ => ?_
      simp [Array.getD_eq_getD_getElem?, hlt]
    rw [hg, hv]
    rfl
  rw [applyRows, hh, mapM_ok hrow]
  have ha : ((List.range n).map value).toArray =
      Array.ofFn fun row : Fin n => value row := by
    apply Array.ext
    · simp
    · simp
  rw [← ha]
  rfl

theorem operandValues_ofFormulas (hfs : Nameable names fs)
    (hx : x.IsWellFormed) (hm : x.literal? = none → x ∈ names.map Formula.leaf ++ fs) :
    (ofFormulas style names fs).operandValues (Operand.ofFormula style x) =
      .ok (Column.ofFormula style names x).values := by
  cases hl : x.literal? with
  | some b =>
    cases x with
    | leaf name =>
      have hb : literalValue? name = some b := hl
      simp only [Operand.ofFormula, hl, operandValues, Column.ofFormula, Formula.holds, hb,
        Option.getD_some]
      congr 1
      apply Array.ext
      · simp [Table.height, ofFormulas]
      · simp
    | unary c x => cases hl
    | binary c l r => cases hl
  | none =>
    simp only [Operand.ofFormula, hl, operandValues]
    rw [column?_ofFormulas hfs hx, if_pos (hm hl)]

theorem applyRows_operands {c : Connective} (hs : s.IsProper) (hc : s.connective? = some c) :
    applyRows c (s.operands.map fun x => (Column.ofFormula style names x).values) =
      .ok (Column.ofFormula style names s).values := by
  have hne : s.operands.map (fun x row => x.holds (valueIn row names)) ≠ [] := by
    cases s with
    | leaf name => cases hc
    | unary | binary => simp [Formula.operands]
  have hv : ∀ row, c.apply ((s.operands.map fun x row => x.holds (valueIn row names)).map (· row)) =
      .ok (s.holds (valueIn row names)) := by
    intro row
    rw [List.map_map]
    exact Formula.apply_operands hs hc
  have h := applyRows_ofFn (n := 2 ^ names.length) hne hv
  rw [List.map_map] at h
  exact h

theorem compute_ofFormulas {op : Operation} (hs : s.IsWellFormed)
    (hop : s.operation? style = some op)
    (hfs : Nameable names fs)
    (hm : ∀ x ∈ s.operands, x.literal? = none → x ∈ names.map Formula.leaf ++ fs) :
    (ofFormulas style names fs).compute op = .ok (Column.ofFormula style names s) := by
  obtain ⟨c, hc, rfl⟩ := Option.map_eq_some_iff.mp hop
  have hv : ∀ x ∈ s.operands, (ofFormulas style names fs).operandValues
      (Operand.ofFormula style x) = .ok (Column.ofFormula style names x).values := fun x h =>
    operandValues_ofFormulas hfs (hs.of_mem_subformulas (Formula.mem_subformulas_of_operand h)) (hm x h)
  have ho : (s.operands.map (Operand.ofFormula style)).mapM
      (ofFormulas style names fs).operandValues =
        .ok (s.operands.map fun x => (Column.ofFormula style names x).values) := by
    rw [List.mapM_map]
    exact mapM_ok hv
  rw [compute, ho]
  show (applyRows c _).bind _ = _
  rw [applyRows_operands hs.1 hc]
  rfl

/-! ### The columns of a formula -/

/-- Adding the operation of a compound adds its column, unless it is there. -/
theorem add_ofFormulas {op : Operation} (hs : s.IsWellFormed) (hop : s.operation? style = some op)
    (hfs : Nameable names fs)
    (hm : ∀ x ∈ s.operands, x.literal? = none → x ∈ names.map Formula.leaf ++ fs) :
    (ofFormulas style names fs).add op =
      .ok (ofFormulas style names (fs ++ [s]), Column.ofFormula style names s) := by
  have hname : op.name = s.render style := by
    obtain ⟨c, -, rfl⟩ := Option.map_eq_some_iff.mp hop
    rfl
  have hleaf : s ∉ names.map Formula.leaf := by
    intro h
    obtain ⟨name, -, rfl⟩ := List.mem_map.mp h
    cases hop
  rw [add, hname, column?_ofFormulas hfs hs]
  -- a compound met before is found by its rendering, and only a new one is computed
  by_cases h : s ∈ fs
  · rw [if_pos (List.mem_append_right _ h)]
    simp only [ofFormulas, eraseDups_concat_of_mem h]
  · have he : (fs ++ [s]).eraseDups = fs.eraseDups ++ [s] := eraseDups_concat_of_notMem h
    have hn : ¬ s ∈ names.map Formula.leaf ++ fs := by simp [hleaf, h]
    rw [if_neg hn]
    simp only [compute_ofFormulas hs hop hfs hm]
    simp only [ofFormulas, he, ← List.append_assoc, List.map_append, List.map_cons, List.map_nil]
    rfl

/-- A formula of which the propositions are there is a literal, or there once its compounds are. -/
theorem mem_supplied (hp : x.propositions ⊆ names) (hl : x.literal? = none) :
    x ∈ names.map Formula.leaf ++ x.compounds := by
  cases x with
  | leaf name =>
    have hn : name ∈ names := hp (Formula.mem_propositions.mpr ⟨List.mem_singleton_self name, hl⟩)
    exact List.mem_append_left _ (List.mem_map_of_mem hn)
  | unary c x => simp [Formula.compounds]
  | binary c l r => simp [Formula.compounds]

theorem Nameable.append_compounds (hfs : Nameable names fs) (hx : x.IsWellFormed) :
    Nameable names (fs ++ x.compounds) := by
  intro g hg
  rw [← List.append_assoc] at hg
  rcases List.mem_append.mp hg with hg | hg
  · exact hfs g hg
  · exact hx.of_mem_subformulas (Formula.mem_compounds.mp hg).1

theorem addAll_append (t : Table) (ops ops' : List Operation) :
    t.addAll (ops ++ ops') = (t.addAll ops).bind fun t => t.addAll ops' := List.foldlM_append

/-- Adding the last operation of a compound, after those of its operands, adds its column. -/
theorem addAll_singleton {op : Operation} (hs : s.IsWellFormed)
    (hop : s.operation? style = some op) (hp : s.propositions ⊆ names) (hfs : Nameable names fs)
    (hc : ∀ x ∈ s.operands, x.compounds ⊆ fs) :
    (ofFormulas style names fs).addAll [op] = .ok (ofFormulas style names (fs ++ [s])) := by
  have hm : ∀ x ∈ s.operands, x.literal? = none → x ∈ names.map Formula.leaf ++ fs := by
    intro x hx hl
    have hxs := Formula.propositions_subset (Formula.mem_subformulas_of_operand hx)
    have := mem_supplied (List.Subset.trans hxs hp) hl
    rcases List.mem_append.mp this with h | h
    · exact List.mem_append_left _ h
    · exact List.mem_append_right _ (hc x hx h)
  show (add _ _).map _ >>= _ = _
  rw [add_ofFormulas hs hop hfs hm]
  rfl

theorem operand_supplied (hf : f.IsWellFormed) (hp : f.propositions ⊆ names) (hx : x ∈ f.operands) :
    x.IsWellFormed ∧ x.propositions ⊆ names := by
  have hm := Formula.mem_subformulas_of_operand hx
  exact ⟨hf.of_mem_subformulas hm, List.Subset.trans (Formula.propositions_subset hm) hp⟩

/-- Adding the operations of a formula adds the columns of its compounds. -/
theorem addAll_ofFormulas (hf : f.IsWellFormed) (hp : f.propositions ⊆ names)
    (hfs : Nameable names fs) : (ofFormulas style names fs).addAll (f.operations style) =
      .ok (ofFormulas style names (fs ++ f.compounds)) := by
  induction f generalizing fs with
  | leaf name =>
    rw [Formula.compounds, List.append_nil]
    rfl
  | unary c x ih =>
    obtain ⟨op, hop⟩ : ∃ op, (Formula.unary c x).operation? style = some op := ⟨_, rfl⟩
    have hops : (Formula.unary c x).operations style = x.operations style ++ [op] := by
      simp [Formula.operations, Formula.compounds, hop]
    obtain ⟨hx, hxp⟩ := operand_supplied hf hp (List.mem_singleton_self x)
    have hc : ∀ y ∈ (Formula.unary c x).operands, y.compounds ⊆ fs ++ x.compounds := by
      intro y hy
      obtain rfl := List.mem_singleton.mp hy
      exact List.subset_append_right _ _
    rw [hops, addAll_append, ih hx hxp hfs]
    show addAll _ _ = _
    rw [addAll_singleton hf hop hp (hfs.append_compounds hx) hc, Formula.compounds,
      List.append_assoc]
  | binary c l r ihl ihr =>
    obtain ⟨op, hop⟩ : ∃ op, (Formula.binary c l r).operation? style = some op := ⟨_, rfl⟩
    have hops : (Formula.binary c l r).operations style =
        l.operations style ++ (r.operations style ++ [op]) := by
      simp [Formula.operations, Formula.compounds, hop]
    have hmem : l ∈ (Formula.binary c l r).operands ∧ r ∈ (Formula.binary c l r).operands := by
      simp [Formula.operands]
    obtain ⟨hl, hlp⟩ := operand_supplied hf hp hmem.1
    obtain ⟨hr, hrp⟩ := operand_supplied hf hp hmem.2
    have hfl := hfs.append_compounds hl
    have hc : ∀ y ∈ (Formula.binary c l r).operands,
        y.compounds ⊆ fs ++ l.compounds ++ r.compounds := by
      intro y hy z hz
      simp only [Formula.operands, List.mem_cons, List.not_mem_nil, or_false] at hy
      simp only [List.mem_append]
      rcases hy with rfl | rfl <;> tauto
    rw [hops, addAll_append, ihl hl hlp hfs]
    show addAll _ _ = _
    rw [addAll_append, ihr hr hrp hfl]
    show addAll _ _ = _
    rw [addAll_singleton hf hop hp (hfl.append_compounds hr) hc, Formula.compounds]
    simp only [List.append_assoc]

/-! ### The columns of the propositions -/

theorem propositionColumns_eq {qs : List String} (hq : qs.Nodup) :
    propositionColumns n qs = qs.map fun name =>
      ⟨name, Array.ofFn fun row : Fin n => valueIn row qs name⟩ := by
  induction qs with
  | nil => rfl
  | cons q qs ih =>
    obtain ⟨hnot, hq⟩ := List.nodup_cons.mp hq
    rw [propositionColumns, ih hq, List.map_cons]
    congr 1
    · simp [proposition, valueIn]
    · refine List.map_congr_left fun name hn => ?_
      have hne : q ≠ name := fun h => hnot (h ▸ hn)
      simp [valueIn, hne]

theorem ofFormulas_nil (hn : names.Nodup) (hl : ∀ name ∈ names, literalValue? name = none) :
    ofFormulas style names [] = ⟨style, names, propositionColumns (2 ^ names.length) names⟩ := by
  rw [propositionColumns_eq hn, ofFormulas]
  congr 1
  simp only [List.eraseDups_nil, List.append_nil, List.map_map]
  refine List.map_congr_left fun name h => ?_
  simp [Column.ofFormula, Formula.render, Formula.holds, hl name h]

theorem nameable_propositions (hf : f.IsWellFormed) : Nameable f.propositions [] := by
  intro g hg
  rw [List.append_nil] at hg
  obtain ⟨name, hn, rfl⟩ := List.mem_map.mp hg
  have hl := (Formula.mem_propositions.mp hn).1
  exact hf.of_mem_subformulas (Formula.leaf_mem_subformulas.mpr hl)

theorem nameable_compounds (hf : f.IsWellFormed) : Nameable f.propositions f.compounds := by
  simpa using (nameable_propositions hf).append_compounds hf

/-- **The table of a well-formed formula** has the columns of its propositions and compounds. -/
theorem ofRoot_eq_ofFormulas (hf : f.IsWellFormed) {limit : Int}
    (hl : (f.propositions.length : Int) ≤ limit) :
    ofRoot style limit (some f) = .ok (ofFormulas style f.propositions f.compounds) := by
  have hstart : ofFormulas style f.propositions [] = _ :=
    ofFormulas_nil f.nodup_propositions fun name hn => (Formula.mem_propositions.mp hn).2
  have hadd : addAll (ofFormulas style f.propositions []) (f.operations style) =
      .ok (ofFormulas style f.propositions f.compounds) :=
    addAll_ofFormulas hf (List.Subset.refl _) (nameable_propositions hf)
  have hlim : ¬ limit < (f.propositions.length : Int) := by omega
  simp only [ofRoot, Option.map_some, Option.getD_some]
  rw [if_neg hlim]
  show (addAll ⟨_, _, propositionColumns (2 ^ f.propositions.length) _⟩ _).mapError _ = _
  rw [← hstart, hadd]
  rfl

/-! ### The values of a formula -/

theorem assignment_ofFormulas (hfs : Nameable names fs)
    (hl : ∀ name ∈ names, literalValue? name = none) (hrow : row < 2 ^ names.length)
    {name : String} (hn : name ∈ names) :
    (ofFormulas style names fs).assignment row name = some (valueIn row names name) := by
  have hm : Formula.leaf name ∈ names.map Formula.leaf ++ fs :=
    List.mem_append_left _ (List.mem_map_of_mem hn)
  have hc : (ofFormulas style names fs).column? ((Formula.leaf name).render style) = _ :=
    column?_ofFormulas hfs (hfs _ hm)
  rw [if_pos hm] at hc
  have hin : name ∈ (ofFormulas style names fs).propositions := hn
  rw [assignment, if_pos hin]
  show ((column? _ ((Formula.leaf name).render style)).bind _) = _
  rw [hc]
  simp [Column.ofFormula, Formula.holds, hl name hn, hrow]

theorem values_ofFormula (hrow : row < 2 ^ names.length) :
    (Column.ofFormula style names s).values[row]? = some (s.holds (valueIn row names)) := by
  simp [Column.ofFormula, hrow]

theorem column?_of_mem_subformulas (hf : f.IsWellFormed) (hs : s ∈ f.subformulas)
    (hl : s.literal? = none) :
    (ofFormulas style f.propositions f.compounds).column? (s.render style) =
      some (Column.ofFormula style f.propositions s) := by
  have hm : s ∈ f.propositions.map Formula.leaf ++ f.compounds := by
    cases s with
    | leaf name =>
      have hn := Formula.mem_propositions.mpr ⟨Formula.leaf_mem_subformulas.mp hs, hl⟩
      exact List.mem_append_left _ (List.mem_map_of_mem hn)
    | unary | binary => exact List.mem_append_right _ (Formula.mem_compounds.mpr ⟨hs, rfl⟩)
  rw [column?_ofFormulas (nameable_compounds hf) (hf.of_mem_subformulas hs), if_pos hm]

/-- In each row, a subformula evaluates to what its column shows. -/
theorem evaluate_assignment (hf : f.IsWellFormed) (hs : s ∈ f.subformulas)
    (hrow : row < 2 ^ f.propositions.length) :
    s.evaluate ((ofFormulas style f.propositions f.compounds).assignment row) =
      .ok (s.holds (valueIn row f.propositions)) := by
  have hnames : ∀ name ∈ f.propositions, literalValue? name = none := fun name hn =>
    (Formula.mem_propositions.mp hn).2
  refine Formula.evaluate_eq_holds (hf.1.of_mem_subformulas hs) fun name hn => ?_
  exact assignment_ofFormulas (nameable_compounds hf) hnames hrow
    (Formula.propositions_subset hs hn)

theorem getLast?_ofFormulas (hl : f.literal? = none) :
    (ofFormulas style f.propositions f.compounds).columns.getLast? =
      some (Column.ofFormula style f.propositions f) := by
  have hlast : (f.propositions.map Formula.leaf ++ f.compounds.eraseDups).getLast? = some f := by
    by_cases hc : f.connective?.isSome
    · obtain ⟨before, hc, hnot⟩ := Formula.exists_compounds_eq hc
      rw [hc, eraseDups_concat_of_notMem hnot]
      simp
    · cases f with
      | leaf name =>
        have hn : literalValue? name = none := hl
        simp [Formula.propositions, Formula.distinctNames, Formula.leaves, Formula.compounds, hn,
          List.eraseDups_cons]
      | unary | binary => exact absurd rfl hc
  rw [ofFormulas, List.getLast?_map, hlast]
  rfl

/-- **The table agrees with evaluation.** The table of the formula of an accepted text is made
under every sufficient limit; in it each subformula that is no literal has a column, found by its
rendering, which holds in every row the value of the subformula where each proposition has the
value that its own column holds there; and the column of the formula itself is the last. -/
theorem column_of_subformula {text : String} (h : Verdict.ofText text = .accepted) (style : Style)
    {m : Int} (hm : (Formula.weight (Token.ofText text) : Int) ≤ m) :
    ∃ f, Formula.ofText m text = .ok (some f) ∧
      ∀ limit : Int, (f.propositions.length : Int) ≤ limit →
        ∃ t, ofRoot style limit (some f) = .ok t ∧
          (∀ s ∈ f.subformulas, s.literal? = none →
            ∃ column, t.column? (s.render style) = some column ∧
              ∀ row < 2 ^ f.propositions.length, ∃ v, column.values[row]? = some v ∧
                s.evaluate (t.assignment row) = .ok v) ∧
          (f.literal? = none → ∃ column, t.columns.getLast? = some column ∧
            t.column? (f.render style) = some column) := by
  obtain ⟨f, hf, hw⟩ := Verdict.exists_formula_of_accepted h hm
  refine ⟨f, hf, fun limit hlim => ⟨_, ofRoot_eq_ofFormulas hw hlim, ?_, ?_⟩⟩
  · intro s hs hl
    refine ⟨_, column?_of_mem_subformulas hw hs hl, fun row hrow => ?_⟩
    exact ⟨_, values_ofFormula hrow, evaluate_assignment hw hs hrow⟩
  · intro hl
    exact ⟨_, getLast?_ofFormulas hl, column?_of_mem_subformulas hw f.self_mem_subformulas hl⟩

/-- A conditional that is the premise of another one has its column in the table of both. -/
theorem column_of_subformula_premise :
    Verdict.ofText "P -> Q -> P" = .accepted ∧
      ∃ t column, ofRoot .plain 2 (some (.binary .implies
          (.binary .implies (.leaf "P") (.leaf "Q")) (.leaf "P"))) = .ok t ∧
        t.column? "P ⇒ Q" = some column ∧ ∀ row < 4, ∃ v, column.values[row]? = some v ∧
          (Formula.binary .implies (.leaf "P") (.leaf "Q")).evaluate (t.assignment row) = .ok v := by
  let f : Formula := .binary .implies (.binary .implies (.leaf "P") (.leaf "Q")) (.leaf "P")
  have hw : f.IsWellFormed := by
    refine ⟨⟨by decide, ⟨by decide, trivial, trivial⟩, trivial⟩, fun name hn => ?_⟩
    simp only [f, Formula.leaves, List.mem_append, List.mem_singleton] at hn
    rcases hn with (rfl | rfl) | rfl
    · exact .inl ⟨'P', [], rfl, by decide, by simp⟩
    · exact .inl ⟨'Q', [], rfl, by decide, by simp⟩
    · exact .inl ⟨'P', [], rfl, by decide, by simp⟩
  have hr : f.render .source = "P -> Q -> P" := by decide
  have hacc : Verdict.ofText "P -> Q -> P" = .accepted := hr ▸ Formula.accepted_render hw
  have htokens : Token.ofText "P -> Q -> P" = f.tokens := hr ▸ Formula.ofText_render hw
  have hweight : (Formula.weight (Token.ofText "P -> Q -> P") : Int) ≤ 2 := by
    rw [htokens]
    decide
  obtain ⟨g, hg, h⟩ := column_of_subformula hacc .plain hweight
  have hd := (Formula.ofTokens_eq_some_iff.mp hg).2
  rw [htokens] at hd
  obtain rfl : g = f := hd.unique (Formula.derives_tokens hw.1).to_disjunction
  obtain ⟨t, ht, hs, -⟩ := h 2 (by decide)
  obtain ⟨column, hc, hv⟩ := hs (.binary .implies (.leaf "P") (.leaf "Q")) (by decide) rfl
  exact ⟨hacc, t, column, ht, hc, hv⟩

end Table
end Sentential
