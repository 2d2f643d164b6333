/-
# What the limits bound

The limit on a list of tokens counts its connectives and opening parentheses, before anything is
built and whatever their order. It bounds what is built afterwards: no connective is used twice and
none is lost, so the formula has as many compounds as there are connectives, and its height is no
greater; and each group stands behind an opening parenthesis of its own, so groups are nested no
deeper than there are such parentheses. From the compounds this passes to the table, in which each
of them has one column at most, and to the propositions, since a formula has at most one leaf more
than it has compounds.

Key definitions: `Formula.height`, `Item.depth`.
Key theorems: `Formula.height_le_length_compounds`, `Formula.length_leaves_le`,
`Item.depthOfAll_le_openings`, `Token.length_connectives_add_openings`,
`Formula.exists_tooComplex_iff`, `Formula.sizes_of_ofTokens`, `Table.width_ofFormulas_le`,
`Analysis.size_within_limits`.
-/
import Sentential.Proofs.Analysis
import Sentential.Proofs.Balance
import Sentential.Proofs.Counting
import Sentential.Proofs.Weight

namespace Sentential

theorem length_eraseDups_le {α : Type} [BEq α] [LawfulBEq α] (xs : List α) :
    xs.eraseDups.length ≤ xs.length :=
  (List.subperm_of_subset (nodup_eraseDups xs) fun _ => List.mem_eraseDups.mp).length_le

namespace Formula

/-- The number of connectives on the longest way from the root to a leaf. -/
def height : Formula → Nat
  | leaf _ => 0
  | unary _ x => x.height + 1
  | binary _ l r => max l.height r.height + 1

/-! ### Formulas -/

theorem length_compounds (f : Formula) : f.compounds.length = f.connectives.length := by
  induction f with
  | leaf name => rfl
  | unary c x ih => simp [compounds, connectives, ih]
  | binary c l r ihl ihr =>
    simp only [compounds, connectives, List.length_append, List.length_cons, List.length_nil]
    omega

theorem height_le_length_compounds (f : Formula) : f.height ≤ f.compounds.length := by
  induction f with
  | leaf name => exact Nat.zero_le _
  | unary c x ih => simpa [height, compounds] using ih
  | binary c l r ihl ihr =>
    simp only [height, compounds, List.length_append, List.length_cons, List.length_nil]
    omega

/-- Only a connective with two operands brings two formulas together. -/
theorem length_leaves_le (f : Formula) : f.leaves.length ≤ f.compounds.length + 1 := by
  induction f with
  | leaf name => exact Nat.le_refl 1
  | unary c x ih =>
    simp only [leaves, compounds, List.length_append, List.length_cons, List.length_nil]
    omega
  | binary c l r ihl ihr =>
    simp only [leaves, compounds, List.length_append, List.length_cons, List.length_nil]
    omega

theorem length_propositions_le (f : Formula) : f.propositions.length ≤ f.leaves.length :=
  Nat.le_trans (length_eraseDups_le _) (List.length_filter_le ..)

end Formula

namespace Token

/-! ### Tokens -/

/-- What is neither an atom nor a closing parenthesis is a connective or an opening one. -/
theorem length_connectives_add_openings (ts : List Token) :
    (connectives ts).length + openings ts = Formula.weight ts := by
  induction ts with
  | nil => rfl
  | cons t ts ih =>
    rw [openings_cons, Formula.weight_cons]
    cases hk : t.category with
    | connective c =>
      rw [connectives_cons hk]
      simp only [reduceCtorEq, or_self, if_false, List.length_cons]
      omega
    | atom | opening | closing =>
      rw [connectives_cons_of_forall_ne fun c => by simp [hk]]
      simp
      omega

end Token

namespace Item

mutual
/-- How deep groups are nested in an item. -/
def depth : Item → Nat
  | token _ => 0
  | group items => depthOfAll items + 1

def depthOfAll : List Item → Nat
  | [] => 0
  | item :: items => max (depth item) (depthOfAll items)
end

/-! ### Groups -/

/-- Each group stands behind an opening parenthesis of its own. -/
theorem depthOfAll_le_openings {items : List Item} {ts : List Token} (h : Spelled items ts) :
    depthOfAll items ≤ Token.openings ts := by
  induction h with
  | nil => exact Nat.zero_le _
  | @token t items ts _ _ ih =>
    rw [depthOfAll, depth, Token.openings_cons]
    omega
  | @group o c inner items us ts ho _ _ _ ihi ih =>
    rw [depthOfAll, depth, List.cons_append, Token.openings_cons, if_pos ho, Token.openings_append,
      Token.openings_cons]
    omega

end Item

namespace Formula

variable {limit : Int} {tokens : List Token} {f : Formula}

/-! ### What the limit refuses -/

theorem weight_eq_countP : weight tokens =
    tokens.countP fun t => t.category ≠ .atom ∧ t.category ≠ .closing :=
  List.countP_congr fun t _ => by simp

/-- The limit is checked before the order of the tokens, and nothing else is too complex. -/
theorem exists_tooComplex_iff (hne : tokens ≠ []) :
    (∃ count bound, ofTokens limit tokens = .error (.tooComplex count bound)) ↔
      limit < weight tokens := by
  by_cases hw : limit < weight tokens
  · refine iff_of_true ⟨weight tokens, limit, ?_⟩ hw
    rw [ofTokens, if_neg (by simpa using hne), if_pos hw]
  · refine iff_of_false ?_ hw
    rintro ⟨count, bound, h⟩
    rw [ofTokens_within hne (by omega)] at h
    split at h <;> cases h

/-- The connectives and the opening parentheses of what is read keep the limit together. -/
theorem sizes_of_ofTokens (h : ofTokens limit tokens = .ok (some f)) :
    f.compounds.length = (Token.connectives tokens).length ∧
      (f.compounds.length + Token.openings tokens : Int) ≤ limit := by
  obtain ⟨hw, hd⟩ := ofTokens_eq_some_iff.mp h
  have hc : f.compounds.length = (Token.connectives tokens).length := by
    rw [length_compounds, hd.connectives_eq]
  have := Token.length_connectives_add_openings tokens
  exact ⟨hc, by omega⟩

/-- The groups from which a formula is built are nested no deeper than parentheses open. -/
theorem exists_groups_of_ofTokens (h : ofTokens limit tokens = .ok (some f)) :
    ∃ items, Item.groups tokens = .ok items ∧ Item.depthOfAll items ≤ Token.openings tokens := by
  obtain ⟨-, hd⟩ := ofTokens_eq_some_iff.mp h
  obtain ⟨items, -, hs, -⟩ := exists_readsTo hd
  exact ⟨items, Item.groups_eq_ok_iff.mpr hs, Item.depthOfAll_le_openings hs⟩

end Formula

namespace Table

variable {style : Style} {names : List String} {fs : List Formula}

/-- Behind the columns of the propositions stands one column for each formula at most. -/
theorem width_ofFormulas_le :
    ((ofFormulas style names fs).columns.drop names.length).length ≤ fs.length := by
  have hlen := length_eraseDups_le fs
  simp only [ofFormulas, List.length_drop, List.length_map, List.length_append]
  omega

end Table

namespace Analysis

/-- **The limits bound the size of all that is built.** Tokens are refused as too complex exactly if
more of them than the limit are neither atoms nor closing parentheses, in whatever order they stand.
In a formula that is made of tokens, the height is at most the number of compounds, which is that of
the connectives, and groups are nested at most as deep as there are opening parentheses; both
numbers together are within the limit. So the table of an analysis has no more columns behind those
of its propositions than there may be connectives, and no more propositions than either limit
allows. -/
theorem size_within_limits :
    (∀ (limit : Int) (tokens : List Token), tokens ≠ [] →
      ((∃ count bound, Formula.ofTokens limit tokens = .error (.tooComplex count bound)) ↔
        limit < tokens.countP fun t => t.category ≠ .atom ∧ t.category ≠ .closing) ∧
      ∀ f, Formula.ofTokens limit tokens = .ok (some f) →
        f.height ≤ f.compounds.length ∧
        f.compounds.length = (Token.connectives tokens).length ∧
        (∃ items, Item.groups tokens = .ok items ∧
          Item.depthOfAll items ≤ Token.openings tokens) ∧
        (f.compounds.length + Token.openings tokens : Int) ≤ limit) ∧
    ∀ (s : Settings) (text : String) (a : Analysis) (t : Table),
      ofText s text = .ok a → a.table = some t →
        t.columns.take t.propositions.length = Table.propositionColumns t.height t.propositions ∧
        (t.columns.drop t.propositions.length).length ≤ s.maxOperators ∧
        t.propositions.length ≤ min s.maxPropositions (s.maxOperators + 1) := by
  refine ⟨fun limit tokens hne => ⟨?_, fun f hf => ?_⟩, fun s text a t ha ht => ?_⟩
  · rw [← Formula.weight_eq_countP]
    exact Formula.exists_tooComplex_iff hne
  · obtain ⟨hc, hlimit⟩ := Formula.sizes_of_ofTokens hf
    exact ⟨f.height_le_length_compounds, hc, Formula.exists_groups_of_ofTokens hf, hlimit⟩
  · have houtcome := outcome_ofText s text
    rw [ha] at houtcome
    cases houtcome with
    | blank hb =>
      obtain rfl := Option.some.inj ht
      exact ⟨rfl, Nat.zero_le _, Nat.zero_le _⟩
    | rejected hb h => cases ht
    | @tabulated f h hw hf hp =>
      obtain rfl := Option.some.inj ht
      have hread : Formula.ofText s.maxOperators text = .ok (some f) :=
        Formula.ofTokens_eq_some_iff.mpr ⟨by omega, hf⟩
      have hnames : ∀ name ∈ f.propositions, literalValue? name = none := fun name hn =>
        (Formula.mem_propositions.mp hn).2
      obtain ⟨-, hlimit⟩ := Formula.sizes_of_ofTokens hread
      have hcompounds : f.compounds.length ≤ s.maxOperators := by omega
      have hpropositions : f.propositions.length ≤ s.maxOperators + 1 := by
        have hleaves := f.length_propositions_le
        have hbinary := f.length_leaves_le
        omega
      refine ⟨Table.take_columns f.nodup_propositions hnames _, ?_, le_min hp hpropositions⟩
      exact Nat.le_trans Table.width_ofFormulas_le hcompounds

/-- The negation of a conjunction that holds a negation: one more connective or parenthesis than
the limit is refused, whether the parentheses match or not; within the limit there are three
compounds, one group and at most four columns behind those of the two propositions. -/
theorem size_within_limits_negated_group :
    (∃ count bound, Formula.ofTokens 3 [.ofConnective .not, .opening, .ofAtom "A",
        .ofConnective .and, .ofConnective .not, .ofAtom "B"] = .error (.tooComplex count bound)) ∧
    (∃ f, Formula.ofTokens 4 [.ofConnective .not, .opening, .ofAtom "A", .ofConnective .and,
        .ofConnective .not, .ofAtom "B", .closing] = .ok (some f) ∧
      f.height ≤ 3 ∧ f.compounds.length = 3 ∧ ∃ items, Item.groups [.ofConnective .not, .opening,
        .ofAtom "A", .ofConnective .and, .ofConnective .not, .ofAtom "B", .closing] = .ok items ∧
        Item.depthOfAll items ≤ 1) ∧
    ∃ a t, ofText { maxOperators := 4 } "!(a && !b)" = .ok a ∧ a.table = some t ∧
      t.propositions = ["A", "B"] ∧ (t.columns.drop 2).length ≤ 4 := by
  refine ⟨?_, ?_, ?_⟩
  · exact ((size_within_limits.1 3 _ (by decide)).1).mpr (by decide)
  · have hread : Formula.ofTokens 4 [.ofConnective .not, .opening, .ofAtom "A", .ofConnective .and,
        .ofConnective .not, .ofAtom "B", .closing] = .ok (some (.unary .not
          (.binary .and (.leaf "A") (.unary .not (.leaf "B"))))) := by decide +kernel
    obtain ⟨hheight, hcompounds, hgroups, -⟩ := (size_within_limits.1 4 _ (by decide)).2 _ hread
    exact ⟨_, hread, hheight, hcompounds, hgroups⟩
  · have ha : ofText { maxOperators := 4 } "!(a && !b)" = .ok ⟨"!(a && !b)", .accepted,
        some ⟨.plain, ["A", "B"], [⟨"A", #[false, false, true, true]⟩,
          ⟨"B", #[false, true, false, true]⟩, ⟨"¬B", #[true, false, true, false]⟩,
          ⟨"A ∧ ¬B", #[false, false, true, false]⟩, ⟨"¬(A ∧ ¬B)", #[true, true, false, true]⟩]⟩,
        "¬(A ∧ ¬B)"⟩ := by decide +kernel
    exact ⟨_, _, ha, rfl, rfl, (size_within_limits.2 _ _ _ _ ha rfl).2.1⟩

end Analysis
end Sentential
