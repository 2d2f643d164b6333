/-
# Rows count in binary

The values of the propositions in a row, read as the digits of a binary number of which the first is
the most significant, make up the number of the row. For the digit of a proposition is true in the
second half of each of its periods, which is where the binary digit of the row at this place is one.
So the rows run through all assignments to the propositions, in the order of these numbers and each
of them once, and the value of a formula under an assignment is found in the row with the number of
the assignment.

Key definitions: `Table.number`, `Table.digits`.
Key theorems: `Table.number_digits`, `Table.digits_number`, `Table.mapM_propositionColumns`,
`Table.existsUnique_row`, `Table.valueIn_number`, `Table.map_number_rows`,
`Table.rows_count_in_binary`.
-/
import Sentential.Proofs.Columns

namespace Sentential
namespace Table

/-- The number with the given binary digits, the most significant of them first. -/
def number : List Bool → Nat
  | [] => 0
  | b :: bits => b.toNat * 2 ^ bits.length + number bits

/-- The last binary digits of the number of a row, the most significant of them first. -/
def digits (row : Nat) : (count : Nat) → List Bool
  | 0 => []
  | count + 1 => decide (2 ^ count ≤ row % 2 ^ (count + 1)) :: digits row count

variable {style : Style} {names : List String} {f s : Formula} {bits bits' : List Bool}
  {n row height : Nat}

/-! ### Numbers and their digits -/

theorem length_digits (row : Nat) : ∀ n : Nat, (digits row n).length = n
  | 0 => rfl
  | n + 1 => by rw [digits, List.length_cons, length_digits row n]

theorem number_lt : ∀ bits : List Bool, number bits < 2 ^ bits.length
  | [] => Nat.one_pos
  | b :: bits => by
    have := number_lt bits
    have hb : b.toNat * 2 ^ bits.length ≤ 1 * 2 ^ bits.length :=
      Nat.mul_le_mul_right _ b.toNat_le
    rw [number, List.length_cons, Nat.pow_succ]
    omega

/-- The digits of a row make up its number, as far as they go. -/
theorem number_digits (row : Nat) : ∀ n : Nat, number (digits row n) = row % 2 ^ n
  | 0 => (Nat.mod_one row).symm
  | n + 1 => by
    rw [digits, number, length_digits, number_digits row n]
    have hsplit : row % 2 ^ (n + 1) = row % 2 ^ n + 2 ^ n * (row / 2 ^ n % 2) := Nat.mod_pow_succ
    have hlow : row % 2 ^ n < 2 ^ n := Nat.mod_lt _ (Nat.two_pow_pos n)
    rcases Nat.mod_two_eq_zero_or_one (row / 2 ^ n) with hq | hq
    · have hdigit : ¬ 2 ^ n ≤ row % 2 ^ (n + 1) := by
        rw [hsplit, hq]
        omega
      rw [decide_eq_false hdigit, hsplit, hq]
      simp
    · have hdigit : 2 ^ n ≤ row % 2 ^ (n + 1) := by
        rw [hsplit, hq]
        omega
      rw [decide_eq_true hdigit, hsplit, hq, Bool.toNat_true]
      omega

theorem eq_of_number_eq (hl : bits.length = bits'.length) (h : number bits = number bits') :
    bits = bits' := by
  induction bits generalizing bits' with
  | nil => exact (List.length_eq_zero_iff.mp hl.symm).symm
  | cons b bits ih =>
    cases bits' with
    | nil => cases hl
    | cons b' bits' =>
      have hlen : bits.length = bits'.length := Nat.succ.inj hl
      have hlt := number_lt bits
      have hlt' := number_lt bits'
      rw [number, number, hlen] at h
      rw [hlen] at hlt
      -- the rests stay below the weight of the first digits
      have hb : b = b' := by
        cases b <;> cases b' <;> simp only [Bool.toNat_true, Bool.toNat_false] at h <;>
          first | rfl | omega
      subst hb
      rw [ih hlen (Nat.add_left_cancel h)]

theorem digits_number (bits : List Bool) : digits (number bits) bits.length = bits := by
  refine eq_of_number_eq (length_digits _ _) ?_
  rw [number_digits, Nat.mod_eq_of_lt (number_lt bits)]

/-! ### The values of the propositions -/

theorem value?_proposition (hrow : row < height) (name : String) :
    (proposition height n name).value? row = some (decide (2 ^ n ≤ row % 2 ^ (n + 1))) := by
  rw [Column.value?_natCast]
  simp [proposition, hrow]

/-- In a row, the columns of the propositions hold the digits of its number. -/
theorem mapM_propositionColumns (hrow : row < height) : ∀ names : List String,
    (propositionColumns height names).mapM (·.value? row) = some (digits row names.length)
  | [] => rfl
  | name :: names => by
    rw [propositionColumns, List.mapM_cons, value?_proposition hrow,
      mapM_propositionColumns hrow names]
    rfl

/-- Values for the propositions stand in one row, which is the one with their number. -/
theorem existsUnique_row (hl : bits.length = names.length) :
    ∃! row : Nat, row < 2 ^ names.length ∧
      (propositionColumns (2 ^ names.length) names).mapM (·.value? row) = some bits := by
  have hlt : number bits < 2 ^ names.length := hl ▸ number_lt bits
  have hd : digits (number bits) names.length = bits := hl ▸ digits_number bits
  refine ⟨number bits, ⟨hlt, ?_⟩, ?_⟩
  · exact (mapM_propositionColumns hlt names).trans (congrArg some hd)
  · rintro row ⟨hrow, h⟩
    rw [mapM_propositionColumns hrow] at h
    rw [← Option.some.inj h, number_digits, Nat.mod_eq_of_lt hrow]

/-- The values that the propositions have by their names are the binary digits of the row. -/
theorem map_valueIn (hn : names.Nodup) :
    names.map (valueIn row names) = digits row names.length := by
  induction names with
  | nil => rfl
  | cons name names ih =>
    obtain ⟨hnot, hn⟩ := List.nodup_cons.mp hn
    have hrest : names.map (valueIn row (name :: names)) = names.map (valueIn row names) := by
      refine List.map_congr_left fun other ho => ?_
      rw [valueIn, if_neg]
      rintro rfl
      exact hnot ho
    rw [List.map_cons, hrest, ih hn, List.length_cons, digits, valueIn, if_pos rfl]

/-- In the row with the number of an assignment, the propositions have the values it gives them. -/
theorem valueIn_number (hn : names.Nodup) {a : String → Bool} {name : String} (h : name ∈ names) :
    valueIn (number (names.map a)) names name = a name := by
  have hd := digits_number (names.map a)
  rw [List.length_map, ← map_valueIn hn] at hd
  exact List.map_inj_left.mp hd name h

/-! ### The table of a formula -/

/-- Read as numbers, the values of the propositions in the rows of a table count up from zero. -/
theorem map_number_rows (hl : f.literal? = none) :
    ∃ rows, (ofFormulas style f.propositions f.compounds).rows? = some rows ∧
      rows.map (fun row => number (row.take f.propositions.length)) =
        List.range (2 ^ f.propositions.length) := by
  have hcount : (ofFormulas style f.propositions f.compounds).rowCount =
      2 ^ f.propositions.length := by
    rw [rowCount_ofFormulas, hl]
    rfl
  refine ⟨_, rows?_ofFormulas, ?_⟩
  rw [hcount, List.map_map]
  refine (List.map_congr_left fun row hrow => ?_).trans (List.map_id _)
  have hnames : (f.propositions.map Formula.leaf).map
      (fun s => s.holds (valueIn row f.propositions)) =
        f.propositions.map (valueIn row f.propositions) := by
    rw [List.map_map]
    refine List.map_congr_left fun name hn => ?_
    simp [Formula.holds, (Formula.mem_propositions.mp hn).2]
  have hlen : (f.propositions.map (valueIn row f.propositions)).length = f.propositions.length :=
    List.length_map ..
  rw [Function.comp, List.map_append, hnames, List.take_left' hlen,
    map_valueIn f.nodup_propositions, number_digits, Nat.mod_eq_of_lt (List.mem_range.mp hrow)]
  rfl

theorem take_columns (hn : names.Nodup) (hl : ∀ name ∈ names, literalValue? name = none)
    (fs : List Formula) : (ofFormulas style names fs).columns.take names.length =
      propositionColumns (2 ^ names.length) names := by
  have hnil : (ofFormulas style names []).columns = propositionColumns (2 ^ names.length) names :=
    congrArg Table.columns (ofFormulas_nil hn hl)
  rw [← hnil, ofFormulas, ofFormulas, List.map_append, List.take_left', List.eraseDups_nil,
    List.append_nil]
  rw [List.length_map, List.length_map]

theorem values_number (hn : names.Nodup) (hs : s.IsProper) (hp : s.propositions ⊆ names)
    {p : Assignment} {a : String → Bool} (ha : ∀ name ∈ names, p name = some (a name)) :
    ∃ v, (Column.ofFormula style names s).values[number (names.map a)]? = some v ∧
      s.evaluate p = .ok v := by
  have hrow : number (names.map a) < 2 ^ names.length := by
    have := number_lt (names.map a)
    rwa [List.length_map] at this
  refine ⟨_, values_ofFormula hrow, Formula.evaluate_eq_holds hs fun name h => ?_⟩
  rw [ha name (hp h), valueIn_number hn (hp h)]

/-- **Rows count in binary.** The values of the propositions in a row are the binary digits of its
number, whatever the propositions are, and so every choice of values stands in one row only. In the
table of an accepted text the rows count from zero, and every subformula that is no literal has, in
the row with the number of an assignment, the value that it has under this assignment. -/
theorem rows_count_in_binary :
    (∀ names : List String,
      (∀ row : Nat, row < 2 ^ names.length → ∃ bits,
        (propositionColumns (2 ^ names.length) names).mapM (·.value? row) = some bits ∧
          bits.length = names.length ∧ number bits = row) ∧
      ∀ bits : List Bool, bits.length = names.length → ∃! row : Nat, row < 2 ^ names.length ∧
        (propositionColumns (2 ^ names.length) names).mapM (·.value? row) = some bits) ∧
    ∀ text, Verdict.ofText text = .accepted → ∀ (style : Style) (m : Int),
      (Formula.weight (Token.ofText text) : Int) ≤ m →
      ∃ f, Formula.ofText m text = .ok (some f) ∧
        ∀ limit : Int, (f.propositions.length : Int) ≤ limit →
          ∃ t, ofRoot style limit (some f) = .ok t ∧
            t.columns.take f.propositions.length =
              propositionColumns (2 ^ f.propositions.length) f.propositions ∧
            (f.literal? = none → ∃ rows, t.rows? = some rows ∧
              rows.map (fun row => number (row.take f.propositions.length)) =
                List.range (2 ^ f.propositions.length)) ∧
            ∀ (p : Assignment) (a : String → Bool),
              (∀ name ∈ f.propositions, p name = some (a name)) →
              ∀ s ∈ f.subformulas, s.literal? = none → ∃ column v,
                t.column? (s.render style) = some column ∧
                column.values[number (f.propositions.map a)]? = some v ∧
                s.evaluate p = .ok v := by
  refine ⟨fun names => ⟨fun row hrow => ?_, fun bits hl => existsUnique_row hl⟩, ?_⟩
  · refine ⟨_, mapM_propositionColumns hrow names, length_digits _ _, ?_⟩
    rw [number_digits, Nat.mod_eq_of_lt hrow]
  · intro text h style m hm
    obtain ⟨f, hf, hw⟩ := Verdict.exists_formula_of_accepted h hm
    have hnames : ∀ name ∈ f.propositions, literalValue? name = none := fun name hn =>
      (Formula.mem_propositions.mp hn).2
    refine ⟨f, hf, fun limit hlim => ⟨_, ofRoot_eq_ofFormulas hw hlim, ?_, map_number_rows, ?_⟩⟩
    · exact take_columns f.nodup_propositions hnames _
    · intro p a ha s hs hl
      obtain ⟨v, hv, he⟩ := values_number f.nodup_propositions
        (hw.1.of_mem_subformulas hs) (Formula.propositions_subset hs) ha
      exact ⟨_, v, column?_of_mem_subformulas hw hs hl, hv, he⟩

/-- Where the first proposition is true and the second false, a conjunction with the negation of
the second is true: the digits `10` make up the number of the row. -/
theorem rows_count_in_binary_negated_operand : Verdict.ofText "p && !q" = .accepted ∧
    ∃ t column,
      ofRoot .plain 2 (some (.binary .and (.leaf "P") (.unary .not (.leaf "Q")))) = .ok t ∧
        t.column? "P ∧ ¬Q" = some column ∧ column.values[2]? = some true := by
  have hacc : Verdict.ofText "p && !q" = .accepted := by decide +kernel
  have hweight : (Formula.weight (Token.ofText "p && !q") : Int) ≤ 2 := by decide +kernel
  have hread : Formula.ofText 2 "p && !q" =
      .ok (some (.binary .and (.leaf "P") (.unary .not (.leaf "Q")))) := by decide +kernel
  obtain ⟨f, hf, h⟩ := rows_count_in_binary.2 "p && !q" hacc .plain 2 hweight
  obtain rfl := Option.some.inj (Except.ok.inj (hread.symm.trans hf))
  obtain ⟨t, ht, -, -, hvalue⟩ := h 2 (by decide)
  obtain ⟨column, v, hc, hv, he⟩ := hvalue (fun name => some (name == "P")) (· == "P")
    (fun _ _ => rfl) _ (Formula.self_mem_subformulas _) rfl
  have hrow : number ((Formula.binary .and (.leaf "P") (.unary .not (.leaf "Q"))).propositions.map
    (· == "P")) = 2 := by decide
  obtain rfl : v = true := Except.ok.inj (he.symm.trans (by decide))
  rw [hrow] at hv
  exact ⟨hacc, t, column, ht, hc, hv⟩

end Table
end Sentential
