/-
# Operands before operations

The operations of a formula come in an order in which each of them finds its operands. An operand is
given by name only, a literal apart, and its name is made anew where it is used; still it is that of
a proposition or that of an operation before, because a compound has the name of the last of its own
operations. Nothing more is needed for the table: with every operand there and as many of them as
the connective takes, no operation fails, whether its column is computed or its name is found taken.
So this holds of formulas with leaves of any names, also where a leaf is named like a compound and
the two share a column.

Key definitions: `Operation.IsSupplied`, `Operation.InOrder`.
Key theorems: `Formula.inOrder_operations`, `Formula.length_operands_eq_arity`,
`Table.exists_request_ok`, `Table.exists_addAll_of_inOrder`, `Table.error_of_ofRoot`,
`Table.operands_before_operations`.
-/
import Sentential.Proofs.Additions

namespace Sentential

namespace Operation

/-- The operation finds its operands: each of them is a literal, a known column or the column of an
operation before. -/
def IsSupplied (known : List String) (before : List Operation) (op : Operation) : Prop :=
  ∀ name, .column name ∈ op.operands → name ∈ known ∨ ∃ earlier ∈ before, earlier.name = name

/-- Each of the operations finds its operands, those before it being done. -/
inductive InOrder (known : List String) : List Operation → Prop
  | nil : InOrder known []
  | snoc {ops : List Operation} {op : Operation} (h : InOrder known ops)
      (hop : op.IsSupplied known ops) : InOrder known (ops ++ [op])

variable {known : List String} {ops ops' before after : List Operation} {op : Operation}

theorem IsSupplied.append_left (h : op.IsSupplied known ops') :
    op.IsSupplied known (ops ++ ops') := by
  intro name hn
  refine (h name hn).imp_right fun ⟨earlier, he, hname⟩ => ?_
  exact ⟨earlier, List.mem_append_right _ he, hname⟩

theorem InOrder.append (h : InOrder known ops) (h' : InOrder known ops') :
    InOrder known (ops ++ ops') := by
  induction h' with
  | nil => rwa [List.append_nil]
  | snoc _ hop ih =>
    rw [← List.append_assoc]
    exact .snoc ih hop.append_left

theorem InOrder.isSupplied (h : InOrder known (before ++ op :: after)) :
    op.IsSupplied known before := by
  generalize hops : before ++ op :: after = ops at h
  induction h generalizing after with
  | nil => simp at hops
  | @snoc ops last _ hlast ih =>
    rcases List.eq_nil_or_concat after with rfl | ⟨init, l, rfl⟩
    · obtain ⟨rfl, hl⟩ := List.append_inj' hops rfl
      obtain rfl := List.head_eq_of_cons_eq hl
      exact hlast
    · rw [List.concat_eq_append, ← List.cons_append, ← List.append_assoc] at hops
      exact ih (List.append_inj' hops rfl).1

end Operation

namespace Formula

variable {style : Style} {f x : Formula} {c : Connective}

theorem operations_eq (h : f.connective? = some c) : f.operations style =
    f.operands.flatMap (operations style) ++
      [⟨f.render style, c, f.operands.map (Operand.ofFormula style)⟩] := by
  cases f with
  | leaf name => cases h
  | unary d x =>
    obtain rfl := Option.some.inj h
    simp [operations, operands, compounds, operation?, connective?]
  | binary d l r =>
    obtain rfl := Option.some.inj h
    simp [operations, operands, compounds, operation?, connective?]

/-- What a formula is used by, where it is an operand, is the name of a proposition or of its own
last operation. -/
theorem supplied_as_operand {name : String} (h : Operand.ofFormula style x = .column name) :
    name ∈ x.propositions ∨ ∃ op ∈ x.operations style, op.name = name := by
  cases hl : x.literal? with
  | some b => simp [Operand.ofFormula, hl] at h
  | none =>
    obtain rfl : x.render style = name := by simpa [Operand.ofFormula, hl] using h
    cases hc : x.connective? with
    | some c =>
      have hlast : x.operations style = _ ++ [_] := operations_eq hc
      exact .inr ⟨_, hlast ▸ List.mem_append_right _ (List.mem_singleton_self _), rfl⟩
    | none =>
      cases x with
      | leaf name => exact .inl (mem_propositions.mpr ⟨List.mem_singleton_self name, hl⟩)
      | unary | binary => cases hc

theorem propositions_subset_of_operand {known : List String} (h : x ∈ f.operands)
    (hk : f.propositions ⊆ known) : x.propositions ⊆ known :=
  List.Subset.trans (propositions_subset (mem_subformulas_of_operand h)) hk

theorem isSupplied_root {known : List String} (hk : f.propositions ⊆ known) (name : String)
    (c : Connective) : Operation.IsSupplied known (f.operands.flatMap (operations style))
      ⟨name, c, f.operands.map (Operand.ofFormula style)⟩ := by
  intro column hc
  obtain ⟨x, hx, hcolumn⟩ := List.mem_map.mp hc
  rcases supplied_as_operand hcolumn with hp | ⟨op, hop, hname⟩
  · exact .inl (propositions_subset_of_operand hx hk hp)
  · exact .inr ⟨op, List.mem_flatMap.mpr ⟨x, hx, hop⟩, hname⟩

/-- **The operations of a formula come in order**, whatever its leaves are called. -/
theorem inOrder_operations {known : List String} (hk : f.propositions ⊆ known) :
    Operation.InOrder known (f.operations style) := by
  induction f with
  | leaf name => exact .nil
  | unary c x ih =>
    have hx : x.propositions ⊆ known :=
      propositions_subset_of_operand (by simp [operands]) hk
    rw [operations_eq rfl]
    refine .snoc ?_ (isSupplied_root hk _ _)
    simpa [operands] using ih hx
  | binary c l r ihl ihr =>
    have hl : l.propositions ⊆ known := propositions_subset_of_operand (by simp [operands]) hk
    have hr : r.propositions ⊆ known := propositions_subset_of_operand (by simp [operands]) hk
    rw [operations_eq rfl]
    refine .snoc ?_ (isSupplied_root hk _ _)
    simpa [operands] using (ihl hl).append (ihr hr)

/-- In a formula in which every connective has as many operands as it takes, every operation does. -/
theorem length_operands_eq_arity {op : Operation} (hf : f.IsProper)
    (h : op ∈ f.operations style) : op.operands.length = op.connective.arity := by
  obtain ⟨s, hs, hop⟩ := List.mem_filterMap.mp h
  have hproper := hf.of_mem_subformulas (mem_compounds.mp hs).1
  obtain ⟨c, hc, rfl⟩ := Option.map_eq_some_iff.mp hop
  cases s with
  | leaf name => cases hc
  | unary d x =>
    obtain rfl := Option.some.inj hc
    exact (Connective.arity_eq_one_iff.mpr hproper.1).symm
  | binary d l r =>
    obtain rfl := Option.some.inj hc
    exact (Connective.arity_eq_two_iff.mpr hproper.1).symm

theorem takes_of_mem_operations {op : Operation} (hf : f.IsProper) (h : op ∈ f.operations style) :
    op.connective.Takes op.operands.length := by
  rw [length_operands_eq_arity hf h]
  exact op.connective.takes_arity

end Formula

namespace Table

variable {t t' : Table} {op : Operation} {ops : List Operation} {name : String} {style : Style}
  {known : List String}

theorem isSome_column?_iff :
    (t.column? name).isSome ↔ ∃ column ∈ t.columns, column.name = name := by
  simp [column?]

theorem isSome_column?_request (h : (t.column? name).isSome) :
    ((t.request op).2.column? name).isSome := by
  obtain ⟨added, ha, -⟩ : ∃ added, (t.request op).2.columns = t.columns ++ added ∧ _ :=
    columns_request
  obtain ⟨column, hc, hname⟩ := isSome_column?_iff.mp h
  exact isSome_column?_iff.mpr ⟨column, ha ▸ List.mem_append_left _ hc, hname⟩

theorem operands_ne_nil_of_takes (h : op.connective.Takes op.operands.length) :
    op.operands ≠ [] := by
  intro hnil
  rw [hnil] at h
  simp [Connective.Takes] at h

/-- A request succeeds where the operands are there and the connective takes as many of them. -/
theorem exists_request_ok (h : t.IsSound) (htakes : op.connective.Takes op.operands.length)
    (hoperands : ∀ name, .column name ∈ op.operands → (t.column? name).isSome) :
    ∃ column, (t.request op).1 = .ok column := by
  have hne := operands_ne_nil_of_takes htakes
  cases hr : (t.request op).1 with
  | ok column => exact ⟨column, rfl⟩
  | error e =>
    obtain ⟨-, ⟨name, hn, hnone⟩ | hnot⟩ := ((h.responds op).fails_iff hne).mp ⟨e, hr⟩
    · have := hoperands name hn
      rw [hnone] at this
      cases this
    · exact absurd htakes hnot

theorem addAll_singleton_of_request {column : Column} (h : (t.request op).1 = .ok column) :
    t.addAll [op] = .ok (t.request op).2 := by
  show (t.add op).map _ >>= pure = _
  cases ha : t.add op with
  | ok added => simp only [Table.request, ha]; rfl
  | error e => simp only [Table.request, ha] at h; cases h

/-- **Operations in order are all added**, and after them each has its column. -/
theorem exists_addAll_of_inOrder (h : t.IsSound) (ho : Operation.InOrder known ops)
    (hk : ∀ name ∈ known, (t.column? name).isSome)
    (htakes : ∀ op ∈ ops, op.connective.Takes op.operands.length) :
    ∃ t', t.addAll ops = .ok t' ∧ t'.IsSound ∧ (∀ name ∈ known, (t'.column? name).isSome) ∧
      ∀ op ∈ ops, (t'.column? op.name).isSome := by
  induction ho with
  | nil => exact ⟨t, rfl, h, hk, nofun⟩
  | @snoc ops op _ hop ih =>
    obtain ⟨t', ht', hs, hknown, hdone⟩ :=
      ih fun op' hop' => htakes op' (List.mem_append_left _ hop')
    have hoperands : ∀ name, .column name ∈ op.operands → (t'.column? name).isSome := by
      intro name hn
      rcases hop name hn with hname | ⟨earlier, he, rfl⟩
      · exact hknown name hname
      · exact hdone earlier he
    have hlast := htakes op (List.mem_append_right _ (List.mem_singleton_self op))
    obtain ⟨column, hr⟩ := exists_request_ok hs hlast hoperands
    refine ⟨(t'.request op).2, ?_, hs.request (operands_ne_nil_of_takes hlast),
      fun name hn => isSome_column?_request (hknown name hn), fun op' hop' => ?_⟩
    · rw [addAll_append, ht']
      exact addAll_singleton_of_request hr
    · rcases List.mem_append.mp hop' with hop' | hop'
      · exact isSome_column?_request (hdone op' hop')
      · obtain rfl := List.mem_singleton.mp hop'
        rw [column?_of_request hr]
        rfl

theorem isSome_column?_propositions {names : List String} (hn : names.Nodup) (h : name ∈ names) :
    (column? ⟨style, names, propositionColumns (2 ^ names.length) names⟩ name).isSome := by
  rw [isSome_column?_iff, propositionColumns_eq hn]
  exact ⟨_, List.mem_map_of_mem h, rfl⟩

/-- **Every operation finds its operands**, and so every table is made. In the operations of a
formula, an operand is a literal, a proposition or the name of an operation before, whatever the
connectives and the names of the leaves are. If each connective has as many operands as it takes,
the formula has a table under every limit that its propositions keep, with a column for each of
these and for each operation, and a value in every row of each column. -/
theorem operands_before_operations (f : Formula) (style : Style) :
    (∀ before op after, f.operations style = before ++ op :: after →
      ∀ name, .column name ∈ op.operands →
        name ∈ f.propositions ∨ ∃ earlier ∈ before, earlier.name = name) ∧
    (f.IsProper → ∀ limit : Int, (f.propositions.length : Int) ≤ limit →
      ∃ t, ofRoot style limit (some f) = .ok t ∧
        (∀ name ∈ f.propositions, (t.column? name).isSome) ∧
        (∀ op ∈ f.operations style, (t.column? op.name).isSome) ∧
        ∀ column ∈ t.columns, column.values.size = 2 ^ f.propositions.length) := by
  have horder : Operation.InOrder f.propositions (f.operations style) :=
    Formula.inOrder_operations (List.Subset.refl _)
  refine ⟨fun before op after h => ?_, fun hf limit hlim => ?_⟩
  · rw [h] at horder
    exact horder.isSupplied
  · have hstart : IsSound ⟨style, f.propositions, propositionColumns _ f.propositions⟩ :=
      isSound_propositionColumns f.nodup_propositions
    obtain ⟨t, hadd, hs, hknown, hdone⟩ := exists_addAll_of_inOrder hstart horder
      (fun name hn => isSome_column?_propositions f.nodup_propositions hn)
      fun op hop => Formula.takes_of_mem_operations hf hop
    have hprops : t.propositions = f.propositions := by
      rw [← afterAll_of_addAll hadd, propositions_afterAll]
    have hlim' : ¬ limit < (f.propositions.length : Int) := by omega
    refine ⟨t, ?_, hknown, hdone, fun column hc => ?_⟩
    · simp only [ofRoot, Option.map_some, Option.getD_some]
      rw [if_neg hlim']
      show (addAll ⟨_, _, propositionColumns (2 ^ f.propositions.length) _⟩ _).mapError _ = _
      rw [hadd]
      rfl
    · rw [hs.size column hc, height, hprops]
      rfl

/-- A leaf that is named like a negation gives it its column, and nothing fails. -/
theorem operands_before_operations_shared_name :
    let f : Formula := .binary .and (.leaf "¬A") (.unary .not (.leaf "A"))
    f.operations .plain =
        [⟨"¬A", .not, [.column "A"]⟩, ⟨"¬A ∧ ¬A", .and, [.column "¬A", .column "¬A"]⟩] ∧
      ("¬A" ∈ f.propositions ∨
        ∃ earlier ∈ [(⟨"¬A", .not, [.column "A"]⟩ : Operation)], earlier.name = "¬A") ∧
      f.IsProper ∧ ∃ t, ofRoot .plain 2 (some f) = .ok t ∧
        t.columns.map Column.name = ["¬A", "A", "¬A ∧ ¬A"] ∧
        ∀ column ∈ t.columns, column.values.size = 4 := by
  intro f
  have hops : f.operations .plain =
      [⟨"¬A", .not, [.column "A"]⟩, ⟨"¬A ∧ ¬A", .and, [.column "¬A", .column "¬A"]⟩] := by decide
  have hf : f.IsProper := ⟨by decide, trivial, rfl, trivial⟩
  obtain ⟨horder, htable⟩ := operands_before_operations f .plain
  obtain ⟨t, ht, -, -, hsize⟩ := htable hf 2 (by decide)
  have hnames : (ofRoot .plain 2 (some f)).map (fun t => t.columns.map Column.name) =
      .ok ["¬A", "A", "¬A ∧ ¬A"] := by decide +kernel
  rw [ht] at hnames
  refine ⟨hops, ?_, hf, t, ht, Except.ok.inj hnames, hsize⟩
  exact horder [_] _ [] hops "¬A" (List.mem_cons_self ..)

end Table
end Sentential
