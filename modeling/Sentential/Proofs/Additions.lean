/-
# Columns added to a table

A table grows by requests for the columns of operations. Each request either finds the name of its
operation taken and gives the column that has it, or computes a column and appends it, or fails and
leaves the table as it was. Two things pass from the table before a request to the one after it: no
two columns have one name, and every column has a value in every row. They hold of the columns of
the propositions, and the table of a formula is made by requests for its operations, so they hold of
every table and at every point of its life. Because no name comes twice, it makes no difference
whether a column is looked for among the columns or in an index in which each of them has been
entered by its name.

Key definitions: `Connective.Takes`, `Table.IsSound`, `Table.index`, `Table.request`,
`Table.afterAll`, `Table.Responds`.
Key theorems: `Table.column?_eq_some_iff`, `Table.index_eq_column?`, `Table.exists_compute_iff`,
`Table.request_cases`, `Table.IsSound.request`, `Table.IsSound.responds`,
`Table.IsSound.afterAll`, `Table.isSound_of_ofRoot`, `Table.invariant_of_run`.
-/
import Sentential.Proofs.Outcome
import Sentential.Proofs.Tabulation

namespace Sentential

namespace Connective

/-- The connective can be applied to so many values: negation passes over a second one. -/
def Takes (c : Connective) (count : Nat) : Prop := count = 2 ∨ count = 1 ∧ c = .not

theorem takes_arity (c : Connective) : c.Takes c.arity := by
  cases c with
  | not => exact .inr ⟨rfl, rfl⟩
  | xnor | implies | and | or => exact .inl rfl

theorem exists_apply_iff {c : Connective} {values : List Bool} :
    (∃ b, c.apply values = .ok b) ↔ c.Takes values.length := by
  match values with
  | [] => simp [apply, Takes]
  | [a] => by_cases h : c = .not <;> simp [apply, Takes, h]
  | [a, b] => simp [apply, Takes]
  | a :: b :: d :: values => simp [apply, Takes]

end Connective

namespace Table

/-- The columns are told apart by their names, and each has a value in every row. -/
structure IsSound (t : Table) : Prop where
  nodup : (t.columns.map Column.name).Nodup
  size : ∀ column ∈ t.columns, column.values.size = t.height

/-- Enters a column in an index under its name, in the place of an earlier one with this name. -/
def enter (index : String → Option Column) (column : Column) : String → Option Column :=
  Function.update index column.name (some column)

/-- The index in which the columns of a table have been entered as they were appended. -/
def index (t : Table) : String → Option Column := t.columns.foldl enter fun _ => none

/-- Asks for the column of an operation: the answer, and the table after it. -/
def request (t : Table) (op : Operation) : Except ColumnError Column × Table :=
  match t.add op with
  | .ok (t', column) => (.ok column, t')
  | .error e => (.error e, t)

/-- The table after the columns of several operations have been asked for, in turn. -/
def afterAll (t : Table) (ops : List Operation) : Table :=
  ops.foldl (fun t op => (t.request op).2) t

/-- How a table responds when it is asked for the column of an operation: it grows by one column
at most, the answer is found under the name from then on, neither a name that is taken nor a failure
changes anything, and what makes a request fail is a new name with an operand that is missing or a
number of operands that the connective does not take. -/
structure Responds (t : Table) (op : Operation) : Prop where
  grows : ∃ added, (t.request op).2.columns = t.columns ++ added ∧ added.length ≤ 1
  answers : ∀ column, (t.request op).1 = .ok column →
    (t.request op).2.column? op.name = some column
  found : ∀ column, t.column? op.name = some column → t.request op = (.ok column, t)
  failed : ∀ e, (t.request op).1 = .error e → (t.request op).2 = t
  fails_iff : op.operands ≠ [] → ((∃ e, (t.request op).1 = .error e) ↔
    t.column? op.name = none ∧ ((∃ name, .column name ∈ op.operands ∧ t.column? name = none) ∨
      ¬ op.connective.Takes op.operands.length))

variable {t t' : Table} {op : Operation} {ops : List Operation} {column : Column} {name : String}
  {columns : List Column} {style : Style}

/-! ### Looking for a column -/

theorem column?_eq_none_iff : t.column? name = none ↔ ∀ column ∈ t.columns, column.name ≠ name := by
  simp [column?]

theorem name_of_column? (h : t.column? name = some column) :
    column ∈ t.columns ∧ column.name = name :=
  ⟨List.mem_of_find?_eq_some h, by simpa using List.find?_some h⟩

theorem column?_append (hn : t.column? column.name = none) :
    column? { t with columns := t.columns ++ [column] } column.name = some column := by
  rw [column?] at hn ⊢
  rw [List.find?_append, hn]
  simp

theorem column?_eq_some_iff (h : t.IsSound) :
    t.column? name = some column ↔ column ∈ t.columns ∧ column.name = name :=
  find?_key_eq_some_iff h.nodup

/-- Without a name that comes twice, the index gives the column with the name. -/
theorem foldl_enter (h : (columns.map Column.name).Nodup) :
    columns.foldl enter (fun _ => none) name = columns.find? (·.name = name) := by
  -- from the right end, where the columns are appended
  induction columns using List.reverseRecOn with
  | nil => rfl
  | append_singleton columns column ih =>
    rw [List.map_append, List.nodup_append] at h
    obtain ⟨hn, -, hd⟩ := h
    rw [List.foldl_append, List.foldl_cons, List.foldl_nil, List.find?_append, enter]
    by_cases hname : name = column.name
    · subst hname
      have hnone : columns.find? (·.name = column.name) = none := by
        rw [List.find?_eq_none]
        intro c hc
        simpa using hd _ (List.mem_map_of_mem hc) _ (List.mem_singleton_self _)
      rw [Function.update_self, hnone]
      simp
    · rw [Function.update_of_ne hname, ih hn]
      simp [Ne.symm hname]

/-- The index gives what is found among the columns. -/
theorem index_eq_column? (h : t.IsSound) : t.index = t.column? :=
  funext fun _ => foldl_enter h.nodup

/-! ### Computing a column -/

theorem name_of_compute (h : t.compute op = .ok column) : column.name = op.name := by
  obtain ⟨operands, -, h⟩ := bind_ok_iff.mp h
  obtain ⟨values, -, h⟩ := bind_ok_iff.mp h
  rw [← Except.ok.inj h]

theorem height_pos (t : Table) : 0 < t.height := Nat.two_pow_pos _

/-- A connective that is applied row by row is applied at all, since no column is empty. -/
theorem exists_applyRows_iff {c : Connective} {n : Nat} {operands : List (Array Bool)}
    (hne : operands ≠ []) (hn : 0 < n) (hs : ∀ values ∈ operands, values.size = n) :
    (∃ values, applyRows c operands = .ok values) ↔ c.Takes operands.length := by
  have hrow : ∀ row, (∃ b, (c.apply (operands.map fun values => values.getD row false)).mapError
      ColumnError.apply = .ok b) ↔ c.Takes operands.length := by
    intro row
    simp only [mapError_ok_iff, Connective.exists_apply_iff, List.length_map]
  simp only [applyRows, map_ok_iff]
  rw [exists_comm]
  simp only [exists_and_left, exists_eq', and_true, exists_mapM_ok_iff, hrow,
    sharedHeight_replicate hne hs, List.mem_range]
  exact ⟨fun h => h 0 hn, fun h _ _ => h⟩

theorem size_of_applyRows {c : Connective} {n : Nat} {operands : List (Array Bool)}
    {values : Array Bool} (hne : operands ≠ []) (hs : ∀ values ∈ operands, values.size = n)
    (h : applyRows c operands = .ok values) : values.size = n := by
  obtain ⟨bs, hbs, rfl⟩ := map_ok_iff.mp h
  have := length_of_mapM_ok hbs
  rwa [sharedHeight_replicate hne hs, List.length_range] at this

theorem size_of_operandValues (h : t.IsSound) {x : Operand} {values : Array Bool}
    (hx : t.operandValues x = .ok values) : values.size = t.height := by
  cases x with
  | literal b =>
    rw [← Except.ok.inj hx]
    exact Array.size_replicate
  | column name =>
    rw [operandValues] at hx
    split at hx
    · next column hc =>
      rw [← Except.ok.inj hx]
      exact h.size column (name_of_column? hc).1
    · cases hx

theorem exists_operandValues_iff {x : Operand} : (∃ values, t.operandValues x = .ok values) ↔
    ∀ name, x = .column name → (t.column? name).isSome := by
  cases x with
  | literal b => simp [operandValues]
  | column name => cases h : t.column? name <;> simp [operandValues, h]

theorem operands_of_mapM (h : t.IsSound) (hop : op.operands ≠ []) {operands : List (Array Bool)}
    (ho : op.operands.mapM t.operandValues = .ok operands) : operands ≠ [] ∧
      operands.length = op.operands.length ∧ ∀ values ∈ operands, values.size = t.height := by
  have hlen := length_of_mapM_ok ho
  refine ⟨?_, hlen, fun values hv => ?_⟩
  · rintro rfl
    exact hop (List.length_eq_zero_iff.mp hlen.symm)
  · obtain ⟨x, -, hx⟩ := exists_of_mem_mapM_ok ho hv
    exact size_of_operandValues h hx

theorem size_of_compute (h : t.IsSound) (hop : op.operands ≠ []) (hc : t.compute op = .ok column) :
    column.values.size = t.height := by
  obtain ⟨operands, ho, hc⟩ := bind_ok_iff.mp hc
  obtain ⟨values, hv, hc⟩ := bind_ok_iff.mp hc
  obtain ⟨hne, -, hs⟩ := operands_of_mapM h hop ho
  rw [← Except.ok.inj hc]
  exact size_of_applyRows hne hs hv

/-- A column is computed exactly if the columns of its operands are there, and the connective takes
as many of them. -/
theorem exists_compute_iff (h : t.IsSound) (hop : op.operands ≠ []) :
    (∃ column, t.compute op = .ok column) ↔
      (∀ name, .column name ∈ op.operands → (t.column? name).isSome) ∧
        op.connective.Takes op.operands.length := by
  have hoperands : (∃ operands, op.operands.mapM t.operandValues = .ok operands) ↔
      ∀ name, .column name ∈ op.operands → (t.column? name).isSome := by
    simp only [exists_mapM_ok_iff, exists_operandValues_iff]
    exact ⟨fun hx name hm => hx _ hm name rfl, fun hx x hm name he => hx name (he ▸ hm)⟩
  rw [← hoperands]
  constructor
  · rintro ⟨column, hc⟩
    obtain ⟨operands, ho, hc⟩ := bind_ok_iff.mp hc
    obtain ⟨values, hv, -⟩ := bind_ok_iff.mp hc
    obtain ⟨hne, hlen, hs⟩ := operands_of_mapM h hop ho
    exact ⟨⟨operands, ho⟩, hlen ▸ (exists_applyRows_iff hne t.height_pos hs).mp ⟨values, hv⟩⟩
  · rintro ⟨⟨operands, ho⟩, htakes⟩
    obtain ⟨hne, hlen, hs⟩ := operands_of_mapM h hop ho
    obtain ⟨values, hv⟩ := (exists_applyRows_iff hne t.height_pos hs).mpr (hlen ▸ htakes)
    exact ⟨⟨op.name, values⟩, bind_ok_iff.mpr ⟨operands, ho, bind_ok_iff.mpr ⟨values, hv, rfl⟩⟩⟩

/-! ### One request -/

/-- All that a request can do: it finds the column, appends it, or fails. -/
theorem request_cases (t : Table) (op : Operation) :
    (∃ column, t.column? op.name = some column ∧ t.request op = (.ok column, t)) ∨
    (∃ column, t.column? op.name = none ∧ t.compute op = .ok column ∧
      t.request op = (.ok column, { t with columns := t.columns ++ [column] })) ∨
    (∃ e, t.column? op.name = none ∧ t.compute op = .error e ∧ t.request op = (.error e, t)) := by
  cases hf : t.column? op.name with
  | some column => exact .inl ⟨column, rfl, by simp only [request, add, hf]⟩
  | none =>
    cases hc : t.compute op with
    | ok column => exact .inr (.inl ⟨column, rfl, rfl, by simp only [request, add, hf, hc]; rfl⟩)
    | error e => exact .inr (.inr ⟨e, rfl, rfl, by simp only [request, add, hf, hc]; rfl⟩)

theorem IsSound.append (h : t.IsSound) (hn : t.column? column.name = none)
    (hs : column.values.size = t.height) :
    IsSound { t with columns := t.columns ++ [column] } := by
  refine ⟨?_, fun c hc => ?_⟩
  · rw [List.map_append, List.nodup_append]
    refine ⟨h.nodup, List.nodup_singleton _, fun a ha b hb => ?_⟩
    obtain ⟨c, hc, rfl⟩ := List.mem_map.mp ha
    obtain rfl := List.mem_singleton.mp hb
    exact column?_eq_none_iff.mp hn c hc
  · rcases List.mem_append.mp hc with hc | hc
    · exact h.size c hc
    · obtain rfl := List.mem_singleton.mp hc
      exact hs

/-- A request for the column of an operation with operands keeps the table sound. -/
theorem IsSound.request (h : t.IsSound) (hop : op.operands ≠ []) : (t.request op).2.IsSound := by
  obtain ⟨column, -, hr⟩ | ⟨column, hn, hc, hr⟩ | ⟨e, -, -, hr⟩ := t.request_cases op
  · rwa [hr]
  · rw [hr]
    exact h.append (name_of_compute hc ▸ hn) (size_of_compute h hop hc)
  · rwa [hr]

theorem propositions_request : (t.request op).2.propositions = t.propositions := by
  obtain ⟨column, -, hr⟩ | ⟨column, -, -, hr⟩ | ⟨e, -, -, hr⟩ := t.request_cases op <;> rw [hr]

theorem columns_request :
    ∃ added, (t.request op).2.columns = t.columns ++ added ∧ added.length ≤ 1 := by
  obtain ⟨column, -, hr⟩ | ⟨column, -, -, hr⟩ | ⟨e, -, -, hr⟩ := t.request_cases op
  · exact ⟨[], by rw [hr, List.append_nil], Nat.zero_le 1⟩
  · exact ⟨[column], by rw [hr], Nat.le_refl 1⟩
  · exact ⟨[], by rw [hr, List.append_nil], Nat.zero_le 1⟩

theorem column?_of_request (h : (t.request op).1 = .ok column) :
    (t.request op).2.column? op.name = some column := by
  obtain ⟨found, hf, hr⟩ | ⟨computed, hf, hc, hr⟩ | ⟨e, -, -, hr⟩ := t.request_cases op
  · rw [hr] at h ⊢
    exact Except.ok.inj h ▸ hf
  · rw [hr] at h ⊢
    obtain rfl := Except.ok.inj h
    rw [← name_of_compute hc] at hf ⊢
    exact column?_append hf
  · rw [hr] at h
    cases h

theorem exists_compute_error_iff (h : t.IsSound) (hop : op.operands ≠ []) :
    (∃ e, t.compute op = .error e) ↔
      (∃ name, .column name ∈ op.operands ∧ t.column? name = none) ∨
        ¬ op.connective.Takes op.operands.length := by
  have hnot : (∃ e, t.compute op = .error e) ↔ ¬ ∃ column, t.compute op = .ok column := by
    cases t.compute op <;> simp
  rw [hnot, exists_compute_iff h hop, not_and_or]
  simp

theorem IsSound.responds (h : t.IsSound) (op : Operation) : t.Responds op := by
  refine ⟨columns_request, fun column => column?_of_request, fun column hc => ?_, fun e he => ?_,
    fun hop => ?_⟩
  · simp only [Table.request, add, hc]
  · obtain ⟨column, -, hr⟩ | ⟨column, -, -, hr⟩ | ⟨e, -, -, hr⟩ := t.request_cases op
    · rw [hr]
    · rw [hr] at he
      cases he
    · rw [hr]
  · rw [← exists_compute_error_iff h hop]
    obtain ⟨column, hf, hr⟩ | ⟨column, hf, hc, hr⟩ | ⟨e, hf, hc, hr⟩ := t.request_cases op
    · simp [hr, hf]
    · simp [hr, hc]
    · simp [hr, hf, hc]

/-! ### Runs of requests -/

theorem IsSound.afterAll (h : t.IsSound) (hops : ∀ op ∈ ops, op.operands ≠ []) :
    (t.afterAll ops).IsSound := by
  induction ops generalizing t with
  | nil => exact h
  | cons op ops ih =>
    have hop := hops op (List.mem_cons_self ..)
    exact ih (h.request hop) fun op' hop' => hops op' (List.mem_cons_of_mem _ hop')

theorem propositions_afterAll : (t.afterAll ops).propositions = t.propositions := by
  induction ops generalizing t with
  | nil => rfl
  | cons op ops ih =>
    show ((t.request op).2.afterAll ops).propositions = _
    rw [ih, propositions_request]

theorem columns_prefix_afterAll : t.columns <+: (t.afterAll ops).columns := by
  induction ops generalizing t with
  | nil => exact List.prefix_refl _
  | cons op ops ih =>
    obtain ⟨added, ha, -⟩ : ∃ added, (t.request op).2.columns = t.columns ++ added ∧ _ :=
      columns_request
    have hstep : t.columns <+: (t.request op).2.columns := ⟨added, ha.symm⟩
    exact hstep.trans ih

theorem afterAll_of_addAll (h : t.addAll ops = .ok t') : t.afterAll ops = t' := by
  induction ops generalizing t with
  | nil => exact Except.ok.inj h
  | cons op ops ih =>
    obtain ⟨next, hn, h⟩ := bind_ok_iff.mp h
    obtain ⟨⟨after, column⟩, ha, rfl⟩ := map_ok_iff.mp hn
    have hr : (t.request op).2 = after := by simp only [Table.request, ha]
    show (t.request op).2.afterAll ops = t'
    rw [hr]
    exact ih h

/-! ### The table of a formula -/

theorem isSound_propositionColumns {names : List String} (hn : names.Nodup) :
    IsSound ⟨style, names, propositionColumns (2 ^ names.length) names⟩ := by
  rw [propositionColumns_eq hn]
  refine ⟨?_, fun column hc => ?_⟩
  · rw [List.map_map]
    exact hn.map fun _ _ h => h
  · obtain ⟨name, -, rfl⟩ := List.mem_map.mp hc
    exact Array.size_ofFn

theorem operands_ne_nil_of_mem_operations {f : Formula} (h : op ∈ f.operations style) :
    op.operands ≠ [] := by
  obtain ⟨s, -, hs⟩ := List.mem_filterMap.mp h
  obtain ⟨c, hc, rfl⟩ := Option.map_eq_some_iff.mp hs
  cases s with
  | leaf name => cases hc
  | unary | binary => simp [Formula.operands]

/-- A table that is made is what the columns of the propositions become when those of operations
have been asked for. -/
theorem exists_afterAll_of_ofRoot {root : Option Formula} {limit : Int}
    (h : ofRoot style limit root = .ok t) : ∃ (names : List String) (ops : List Operation),
      names.Nodup ∧ (∀ op ∈ ops, op.operands ≠ []) ∧
        afterAll ⟨style, names, propositionColumns (2 ^ names.length) names⟩ ops = t := by
  rw [ofRoot] at h
  split at h
  · cases h
  · refine ⟨_, _, ?_, ?_, afterAll_of_addAll (mapError_ok_iff.mp h)⟩
    · cases root with
      | none => exact List.nodup_nil
      | some f => exact f.nodup_propositions
    · intro op hop
      cases root with
      | none => cases hop
      | some f => exact operands_ne_nil_of_mem_operations hop

theorem isSound_of_ofRoot {root : Option Formula} {limit : Int}
    (h : ofRoot style limit root = .ok t) : t.IsSound := by
  obtain ⟨names, ops, hn, hops, rfl⟩ := exists_afterAll_of_ofRoot h
  exact (isSound_propositionColumns hn).afterAll hops

/-! ### Rows -/

theorem isSome_value? {j : Int} (hl : -(column.values.size : Int) ≤ j)
    (hr : j < column.values.size) : (column.value? j).isSome := by
  rw [Column.value?]
  by_cases hj : j < 0
  · have h0 : ¬ j + (column.values.size : Int) < 0 := by omega
    have hlt : (j + (column.values.size : Int)).toNat < column.values.size := by omega
    simp [hj, h0, hlt]
  · have hlt : j.toNat < column.values.size := by omega
    simp [hj, hlt]

theorem exists_row (h : t.IsSound) {j : Int} (hl : -(t.height : Int) ≤ j) (hr : j < t.height) :
    ∃ row, t.row? j = some row ∧ row.length = t.columns.length := by
  have hv : ∀ column ∈ t.columns, (column.value? j).isSome := by
    intro column hc
    rw [← h.size column hc] at hl hr
    exact isSome_value? hl hr
  obtain ⟨row, hrow, hlen, -⟩ := exists_mapM_some hv
  exact ⟨row, hrow, hlen⟩

theorem exists_rows (h : t.IsSound) (hne : t.columns ≠ []) : ∃ rows, t.rows? = some rows ∧
    rows.length = t.height ∧ ∀ row ∈ rows, row.length = t.columns.length := by
  have hcount : t.rowCount = t.height := by
    rw [rowCount, if_neg]
    simpa [isEmpty] using hne
  have hrow : ∀ j ∈ List.range t.rowCount, ∃ row, t.row? (j : Int) = some row ∧
      row.length = t.columns.length := by
    intro j hj
    have := hcount ▸ List.mem_range.mp hj
    exact exists_row h (by omega) (by omega)
  obtain ⟨rows, hrows, hlen, hmem⟩ := exists_mapM_some fun j hj =>
    Option.isSome_iff_exists.mpr ((hrow j hj).imp fun _ => And.left)
  refine ⟨rows, hrows, by rw [hlen, List.length_range, hcount], fun row hr => ?_⟩
  obtain ⟨j, hj, hjr⟩ := hmem row hr
  obtain ⟨row', hr', hlen'⟩ := hrow j hj
  rw [hr'] at hjr
  rw [← Option.some.inj hjr, hlen']

/-- **What holds of a table at every point of its life.** However it was made, and whatever columns
of operations with operands have been asked for since, no two columns have one name, a column is
found by its name and by the index, and has a value in every row; a further request appends one
column at most and changes none, finds a column that is there, and changes nothing if it fails. So
the table shows all its rows, and each row can be asked for by its number or from the end. -/
theorem invariant_of_run {root : Option Formula} {limit : Int} {start : Table}
    (h : ofRoot style limit root = .ok start) (hops : ∀ op ∈ ops, op.operands ≠ []) :
    let t := start.afterAll ops
    let n := start.propositions.length
    start.columns <+: t.columns ∧ (t.columns.map Column.name).Nodup ∧
      (∀ name column, t.column? name = some column ↔ column ∈ t.columns ∧ column.name = name) ∧
      (∀ name, t.column? name = none ↔ ∀ column ∈ t.columns, column.name ≠ name) ∧
      t.index = t.column? ∧ (∀ column ∈ t.columns, column.values.size = 2 ^ n) ∧
      (∀ op, t.Responds op) ∧
      (t.columns ≠ [] → ∃ rows, t.rows? = some rows ∧ rows.length = 2 ^ n ∧
        ∀ row ∈ rows, row.length = t.columns.length) ∧
      ∀ j : Int, -2 ^ n ≤ j → j < 2 ^ n →
        ∃ row, t.row? j = some row ∧ row.length = t.columns.length := by
  intro t n
  have hs : t.IsSound := (isSound_of_ofRoot h).afterAll hops
  have hheight : t.height = 2 ^ n := by
    rw [height, propositions_afterAll]
    rfl
  have hsize : ∀ column ∈ t.columns, column.values.size = 2 ^ n := fun column hc =>
    (hs.size column hc).trans hheight
  refine ⟨columns_prefix_afterAll, hs.nodup, fun _ _ => column?_eq_some_iff hs,
    fun _ => column?_eq_none_iff, index_eq_column? hs, hsize, hs.responds, fun hne => ?_,
    fun j hl hr => exists_row hs ?_ ?_⟩
  · rw [← hheight]
    exact exists_rows hs hne
  · rw [hheight]
    exact_mod_cast hl
  · rw [hheight]
    exact_mod_cast hr

/-- A new negation is appended; an operand that is missing and a single one for a disjunction are
refused, the latter unless the name is taken. -/
theorem invariant_of_run_with_refusals :
    let start : Table := ⟨.plain, ["P", "Q"], [⟨"P", #[false, false, true, true]⟩,
      ⟨"Q", #[false, true, false, true]⟩, ⟨"P ∧ Q", #[false, false, false, true]⟩]⟩
    let ops : List Operation := [⟨"¬P", .not, [.column "P"]⟩,
      ⟨"P ∨ R", .or, [.column "P", .column "R"]⟩, ⟨"P ∧ Q", .or, [.literal true]⟩,
      ⟨"¬P ∨ 1", .or, [.literal true]⟩]
    ofRoot .plain 2 (some (.binary .and (.leaf "P") (.leaf "Q"))) = .ok start ∧
      (∀ op ∈ ops, op.operands ≠ []) ∧
      (start.afterAll ops).columns.map Column.name = ["P", "Q", "P ∧ Q", "¬P"] ∧
      (∀ column ∈ (start.afterAll ops).columns, column.values.size = 4) ∧
      ∃ rows, (start.afterAll ops).rows? = some rows ∧ rows.length = 4 := by
  intro start ops
  have hstart : ofRoot .plain 2 (some (.binary .and (.leaf "P") (.leaf "Q"))) = .ok start := by
    decide +kernel
  have hops : ∀ op ∈ ops, op.operands ≠ [] := by decide
  have hnames : (start.afterAll ops).columns.map Column.name = ["P", "Q", "P ∧ Q", "¬P"] := by
    decide +kernel
  obtain ⟨-, -, -, -, -, hsize, -, hrows, -⟩ := invariant_of_run hstart hops
  have hne : (start.afterAll ops).columns ≠ [] := by
    intro hnil
    rw [hnil] at hnames
    cases hnames
  obtain ⟨rows, hr, hlen, -⟩ := hrows hne
  exact ⟨hstart, hops, hnames, hsize, rows, hr, hlen⟩

end Table
end Sentential
