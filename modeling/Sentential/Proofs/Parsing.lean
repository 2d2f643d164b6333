/-
# Reading is deriving

Building a formula from its tokens, in stages on lists that hold finished formulas beside
connectives not joined yet, finds exactly the formulas that the grammar derives. The stages are
those of the grammar: after the stage of a grade, every formula in the list stands for a piece of
the tokens that the grade derives (`Term.Spans`), which gives one direction; and a list that makes
a formula at some grade can be put beside others between looser connectives without being touched
by what happens there (`Term.ReadsTo.append_operator`), which gives the other.

Key definitions: `Term.ReadsTo`, `Term.Spans`.
Key theorems: `Term.reduce_eq_ok_iff`, `Formula.build_eq_ok_iff`, `Derives.unique`,
`Formula.ofTokens_iff_derives`.
-/
import Sentential.Formula.Build
import Sentential.Proofs.Grammar
import Sentential.Proofs.Groups
import Sentential.Proofs.Outcome
import Sentential.Proofs.Sweep

namespace Sentential
namespace Term

/-- The terms become `out` in the stages up to that of the grade. -/
inductive ReadsTo (terms : List Term) : Grade → List Term → Prop
  | primary : ReadsTo terms .primary terms
  | negation {out : List Term} (h : negations 0 terms = .ok out) : ReadsTo terms .negation out
  | chain {g : Grade} {mid out : List Term} (hg : g.connectives ≠ [])
      (h : ReadsTo terms g.tighter mid) (hj : join g.connectives mid = .ok out) :
      ReadsTo terms g out

/-- Each formula among the terms stands for a piece of the tokens that the grade derives, and each
operator for itself. -/
inductive Spans (g : Grade) : List Term → List Token → Prop
  | nil : Spans g [] []
  | operator {t : Token} {terms : List Term} {ts : List Token} (h : Spans g terms ts) :
      Spans g (operator t :: terms) (t :: ts)
  | formula {f : Formula} {terms : List Term} {us ts : List Token} (hf : Derives g us f)
      (h : Spans g terms ts) : Spans g (formula f :: terms) (us ++ ts)

variable {g : Grade} {terms out xs ys xs' ys' : List Term} {ts us : List Token} {t : Token}
  {f l r : Formula} {n : Nat}

namespace Spans

theorem append (h : Spans g xs ts) (h' : Spans g ys us) : Spans g (xs ++ ys) (ts ++ us) := by
  induction h with
  | nil => exact h'
  | operator _ ih => exact .operator ih
  | formula hf _ ih =>
    rw [List.append_assoc]
    exact .formula hf ih

theorem split (h : Spans g (xs ++ ys) ts) :
    ∃ us vs, ts = us ++ vs ∧ Spans g xs us ∧ Spans g ys vs := by
  induction xs generalizing ts with
  | nil => exact ⟨[], ts, rfl, .nil, h⟩
  | cons x xs ih =>
    cases h with
    | operator h =>
      obtain ⟨us, vs, rfl, hx, hy⟩ := ih h
      exact ⟨_ :: us, vs, rfl, .operator hx, hy⟩
    | formula hf h =>
      obtain ⟨us, vs, rfl, hx, hy⟩ := ih h
      exact ⟨_ ++ us, vs, by rw [List.append_assoc], .formula hf hx, hy⟩

theorem singleton (h : Spans g [Term.formula f] ts) : Derives g ts f := by
  cases h with
  | formula hf h =>
    cases h
    rwa [List.append_nil]

end Spans

/-! ### What is read is derived -/

theorem derives_negate {ns : List Token} (hns : ∀ t ∈ ns, t.category = .connective .not)
    (h : Derives .negation ts f) : Derives .negation (ns ++ ts) (negate ns.length f) := by
  induction ns with
  | nil => exact h
  | cons t ns ih =>
    exact .negation (hns t (List.mem_cons_self ..)) (ih fun u hu => hns u (List.mem_cons_of_mem _ hu))

/-- The first stage makes negations, of the signs that are pending and those among the terms. -/
theorem spans_negations (ns : List Token) (hns : ∀ t ∈ ns, t.category = .connective .not)
    (hs : Spans .primary terms ts) (h : negations ns.length terms = .ok out) :
    Spans .negation out (ns ++ ts) := by
  induction hs generalizing ns out with
  | nil =>
    cases ns with
    | nil =>
      obtain rfl := Except.ok.inj h
      exact .nil
    | cons t ns => cases h
  | @operator t terms ts _ ih =>
    rw [negations] at h
    split at h
    · next ht =>
      rw [← List.singleton_append, ← List.append_assoc]
      refine ih _ (fun u hu => ?_) (by rwa [List.length_append])
      rcases List.mem_append.mp hu with hu | hu
      · exact hns u hu
      · rwa [List.mem_singleton.mp hu]
    · split at h
      · next hn =>
        obtain rfl := List.length_eq_zero_iff.mp hn
        obtain ⟨out', ho, rfl⟩ := map_ok_iff.mp h
        exact .operator (ih [] (fun _ h => absurd h List.not_mem_nil) ho)
      · cases h
  | @formula f terms us ts hf _ ih =>
    rw [negations] at h
    obtain ⟨out', ho, rfl⟩ := map_ok_iff.mp h
    rw [← List.append_assoc]
    exact .formula (derives_negate hns (.tighter hf))
      (ih [] (fun _ h => absurd h List.not_mem_nil) ho)

/-- A sweep makes chains: what has been passed stands at the grade, what lies ahead below it. -/
theorem spans_sweep {passed : List Term} (hp : Spans g passed.reverse ts)
    (hs : Spans g.tighter terms us) (h : sweep g.connectives passed terms = .ok out) :
    Spans g out (ts ++ us) := by
  have grown : ∀ {x : Term} {ps : List Term} {vs ws : List Token}, Spans g ps.reverse vs →
      Spans g [x] ws → Spans g (x :: ps).reverse (vs ++ ws) := by
    intro x ps vs ws hv hw
    rw [List.reverse_cons]
    exact hv.append hw
  fun_induction sweep g.connectives passed terms generalizing ts us with
  | case1 passed =>
    obtain rfl := Except.ok.inj h
    cases hs
    rwa [List.append_nil]
  | case2 passed f terms ih =>
    cases hs with
    | @formula _ _ vs ws hf hs =>
      rw [← List.append_assoc]
      refine ih (grown hp ?_) hs h
      simpa using Spans.formula (Derives.tighter hf) .nil
  | case3 passed t terms ht ih =>
    cases hs with
    | @operator _ _ ws hs =>
      rw [← List.singleton_append, ← List.append_assoc]
      exact ih (grown hp (.operator .nil)) hs h
  | case4 t c ht l passed r terms ih =>
    obtain ⟨hm, hc⟩ := joined?_eq_some.1 ht
    rw [List.reverse_cons] at hp
    obtain ⟨vs, ws, rfl, hps, hl⟩ := hp.split
    cases hs with
    | @operator _ _ us hs =>
      cases hs with
      | @formula _ _ us us' hr hs =>
        have hf : Derives g (ws ++ t :: us) (.binary c l r) := .chain hm hc hl.singleton hr
        have := ih (grown hps (by simpa using Spans.formula hf .nil)) hs h
        simpa using this
  | case5 => cases h

/-- After the stage of a grade, the formulas stand for pieces that the grade derives. -/
theorem ReadsTo.spans (h : ReadsTo terms g out) (hs : Spans .primary terms ts) :
    Spans g out ts := by
  induction h with
  | primary => exact hs
  | negation h =>
    exact spans_negations [] (fun _ h => absurd h List.not_mem_nil) hs h
  | chain _ _ hj ih =>
    rw [join_eq_sweep] at hj
    exact spans_sweep .nil ih hj

/-! ### What is derived is read -/

/-- One more sign before the terms is one more around the first of what they make. -/
theorem negations_succ (h : negations n terms = .ok (formula f :: out)) :
    negations (n + 1) terms = .ok (formula (.unary .not f) :: out) := by
  induction terms generalizing n with
  | nil => cases n <;> cases h
  | cons x terms ih =>
    cases x with
    | formula f' =>
      rw [negations] at h ⊢
      obtain ⟨out', ho, he⟩ := map_ok_iff.mp h
      rw [ho]
      obtain ⟨hf, rfl⟩ := List.cons.inj he
      rw [Term.formula.inj hf.symm]
      rfl
    | operator t =>
      rw [negations] at h ⊢
      split at h
      · next ht => rw [if_pos ht, ih h]
      · split at h
        · obtain ⟨out', -, he⟩ := map_ok_iff.mp h
          cases he
        · cases h

theorem negations_append_operator (hx : negations n xs = .ok xs') (hy : negations 0 ys = .ok ys')
    (ht : t.category ≠ .connective .not) :
    negations n (xs ++ operator t :: ys) = .ok (xs' ++ operator t :: ys') := by
  induction xs generalizing n xs' with
  | nil =>
    rw [negations] at hx
    split at hx
    · next hn =>
      obtain rfl := Except.ok.inj hx
      rw [List.nil_append, negations, if_neg ht, if_pos hn, hy]
      rfl
    · cases hx
  | cons x xs ih =>
    cases x with
    | formula f =>
      rw [negations] at hx
      obtain ⟨out, ho, rfl⟩ := map_ok_iff.mp hx
      rw [List.cons_append, negations, ih ho]
      rfl
    | operator u =>
      rw [negations] at hx
      rw [List.cons_append, negations]
      split at hx
      · next hu => rw [if_pos hu, ih hx]
      · next hu =>
        rw [if_neg hu]
        split at hx
        · next hn =>
          obtain ⟨out, ho, rfl⟩ := map_ok_iff.mp hx
          rw [if_pos hn, ih ho]
          rfl
        · cases hx

namespace ReadsTo

/-- The stages up to that of a grade do their work on either side of a looser connective. -/
theorem append_operator {c : Connective} (hx : ReadsTo xs g xs') (hy : ReadsTo ys g ys')
    (ht : t.category = .connective c) (hc : g.place < c.grade.place) :
    ReadsTo (xs ++ operator t :: ys) g (xs' ++ operator t :: ys') := by
  induction hx generalizing ys' with
  | primary =>
    cases hy with
    | primary => exact .primary
    | chain hg => exact absurd rfl hg
  | negation hx =>
    cases hy with
    | negation hy =>
      refine .negation (negations_append_operator hx hy ?_)
      rw [ht]
      rintro ⟨rfl⟩
      exact absurd hc (by decide)
    | chain hg => exact absurd rfl hg
  | @chain k mid out hg hx hj ih =>
    cases hy with
    | primary => exact absurd rfl hg
    | negation => exact absurd rfl hg
    | @chain _ mid' _ _ hy hj' =>
      have hk : k.tighter.place < c.grade.place :=
        Nat.lt_of_le_of_lt (by cases k <;> decide) hc
      refine .chain hg (ih hy hk) ?_
      rw [join_eq_sweep] at hj hj' ⊢
      refine sweep_append_operator hj hj' ?_
      rw [Option.eq_none_iff_forall_ne_some]
      intro d hd
      obtain ⟨hm, hd⟩ := joined?_eq_some.1 hd
      obtain rfl := Category.connective.inj (ht.symm.trans hd)
      rw [(Grade.mem_connectives.1 hm).2] at hc
      exact absurd hc (Nat.lt_irrefl _)

/-- A formula alone is left as it is by every further stage. -/
theorem loosen (h : ReadsTo terms g.tighter [formula f]) : ReadsTo terms g [formula f] := by
  cases g with
  | primary => exact h
  | negation =>
    cases h with
    | primary => exact .negation rfl
    | chain hg => exact absurd rfl hg
  | conditional | conjunction | disjunction => exact .chain (by decide) h join_formula

theorem snoc {c : Connective} (hx : ReadsTo xs g [formula l]) (hy : ReadsTo ys g.tighter [formula r])
    (hc : c ∈ g.connectives) (ht : t.category = .connective c) :
    ReadsTo (xs ++ operator t :: ys) g [formula (.binary c l r)] := by
  have hne : g.connectives ≠ [] := List.ne_nil_of_mem hc
  cases hx with
  | primary => exact absurd rfl hne
  | negation => exact absurd rfl hne
  | @chain _ mid _ _ hx hj =>
    refine .chain hne (hx.append_operator hy ht ?_) ?_
    · rw [(Grade.mem_connectives.1 hc).2]
      cases g <;> first | exact absurd rfl hne | decide
    · rw [join_eq_sweep] at hj ⊢
      rw [← List.nil_append [formula l]] at hj
      exact sweep_snoc hj (joined?_eq_some.2 ⟨hc, ht⟩)

end ReadsTo

theorem joinPasses_eq_ok_iff : joinPasses Connective.binaryPasses terms = .ok out ↔
    ∃ a b, join Grade.conditional.connectives terms = .ok a ∧
      join Grade.conjunction.connectives a = .ok b ∧
      join Grade.disjunction.connectives b = .ok out := by
  have h : joinPasses Connective.binaryPasses terms =
      (join Grade.conditional.connectives terms).bind fun a =>
        (join Grade.conjunction.connectives a).bind fun b =>
          (join Grade.disjunction.connectives b).bind .ok := rfl
  simp only [h, bind_ok_iff, Except.ok.injEq, exists_eq_right]
  constructor
  · rintro ⟨a, ha, b, hb, ho⟩
    exact ⟨a, b, ha, hb, ho⟩
  · rintro ⟨a, b, ha, hb, ho⟩
    exact ⟨a, ha, b, hb, ho⟩

theorem reduce_eq_ok_iff_passes : reduce terms = .ok f ↔ terms.isEmpty = false ∧
    ∃ a, negations 0 terms = .ok a ∧ joinPasses Connective.binaryPasses a = .ok [formula f] := by
  unfold reduce
  cases terms.isEmpty with
  | true =>
    constructor
    · intro h
      cases h
    · rintro ⟨h, -⟩
      cases h
  | false =>
    cases negations 0 terms with
    | error e =>
      constructor
      · intro h
        cases h
      · rintro ⟨-, a, ha, -⟩
        cases ha
    | ok a =>
      show (joinPasses Connective.binaryPasses a).bind _ = _ ↔ _
      rw [bind_ok_iff]
      constructor
      · rintro ⟨out, ho, h⟩
        refine ⟨rfl, a, rfl, ?_⟩
        split at h
        · rw [ho, Except.ok.inj h]
        · cases h
      · rintro ⟨-, a', ha, ho⟩
        obtain rfl := Except.ok.inj ha
        exact ⟨_, ho, rfl⟩

theorem readsTo_disjunction_iff : ReadsTo terms .disjunction out ↔
    ∃ a, negations 0 terms = .ok a ∧ joinPasses Connective.binaryPasses a = .ok out := by
  constructor
  · intro h
    cases h with
    | chain _ h hd =>
      cases h with
      | chain _ h hc =>
        cases h with
        | chain _ h hb =>
          cases h with
          | chain hg => exact absurd rfl hg
          | negation ha => exact ⟨_, ha, joinPasses_eq_ok_iff.mpr ⟨_, _, hb, hc, hd⟩⟩
  · rintro ⟨a, ha, ho⟩
    obtain ⟨b, c, hb, hc, hd⟩ := joinPasses_eq_ok_iff.mp ho
    exact .chain (by decide) (.chain (by decide) (.chain (by decide) (.negation ha) hb) hc) hd

theorem ReadsTo.eq_nil (h : ReadsTo [] g out) : out = [] := by
  induction h with
  | primary => rfl
  | negation h => exact (Except.ok.inj h).symm
  | chain _ _ hj ih =>
    rw [ih, join_eq_sweep] at hj
    exact (Except.ok.inj hj).symm

/-- The terms of a group make a formula if the stages of all grades leave it alone. -/
theorem reduce_eq_ok_iff : reduce terms = .ok f ↔ ReadsTo terms .disjunction [formula f] := by
  rw [reduce_eq_ok_iff_passes, readsTo_disjunction_iff]
  refine and_iff_right_of_imp fun h => ?_
  cases terms with
  | nil => cases (readsTo_disjunction_iff.mpr h).eq_nil
  | cons => rfl

end Term

namespace Formula

variable {items : List Item} {ts : List Token} {terms : List Term} {f f' : Formula} {g : Grade}

theorem termsOf_cons_eq_ok_iff {item : Item} : termsOf (item :: items) = .ok terms ↔
    ∃ x xs, termOf item = .ok x ∧ termsOf items = .ok xs ∧ x :: xs = terms := by
  have h : termsOf (item :: items) =
      (termOf item).bind fun x => (termsOf items).bind fun xs => .ok (x :: xs) := by
    rw [termsOf]
    rfl
  simp only [h, bind_ok_iff, Except.ok.injEq]
  constructor
  · rintro ⟨x, hx, xs, hxs, he⟩
    exact ⟨x, xs, hx, hxs, he⟩
  · rintro ⟨x, xs, hx, hxs, he⟩
    exact ⟨x, hx, xs, hxs, he⟩

theorem termOf_group_eq_ok_iff {x : Term} : termOf (.group items) = .ok x ↔
    ∃ f, ofItems items = .ok f ∧ .formula f = x := by
  have h : termOf (.group items) = (ofItems items).bind fun f => .ok (.formula f) := by
    rw [termOf, ofItems]
    cases termsOf items <;> rfl
  simp only [h, bind_ok_iff, Except.ok.injEq]

theorem termsOf_token {t : Token} (h : termsOf items = .ok terms) (ht : t.category = .atom) :
    termsOf (.token t :: items) = .ok (.formula (.leaf t.text) :: terms) :=
  termsOf_cons_eq_ok_iff.mpr ⟨_, _, by rw [termOf, ht], h, rfl⟩

theorem termsOf_operator {t : Token} (h : termsOf items = .ok terms) (ht : t.category ≠ .atom) :
    termsOf (.token t :: items) = .ok (.operator t :: terms) := by
  refine termsOf_cons_eq_ok_iff.mpr ⟨_, _, ?_, h, rfl⟩
  rw [termOf]
  split
  · next ha => exact absurd ha ht
  · rfl

theorem termsOf_group {inner : List Item} (hi : ofItems inner = .ok f)
    (h : termsOf items = .ok terms) :
    termsOf (.group inner :: items) = .ok (.formula f :: terms) :=
  termsOf_cons_eq_ok_iff.mpr ⟨_, _, termOf_group_eq_ok_iff.mpr ⟨f, hi, rfl⟩, h, rfl⟩

theorem termsOf_append {items' : List Item} {terms' : List Term} (h : termsOf items = .ok terms)
    (h' : termsOf items' = .ok terms') : termsOf (items ++ items') = .ok (terms ++ terms') := by
  induction items generalizing terms with
  | nil =>
    obtain rfl := Except.ok.inj h
    exact h'
  | cons item items ih =>
    obtain ⟨x, xs, hx, hxs, rfl⟩ := termsOf_cons_eq_ok_iff.mp h
    exact termsOf_cons_eq_ok_iff.mpr ⟨x, xs ++ terms', hx, ih hxs, rfl⟩

theorem ofItems_eq_ok_iff : ofItems items = .ok f ↔
    ∃ terms, termsOf items = .ok terms ∧ Term.ReadsTo terms .disjunction [.formula f] := by
  have h : ofItems items = (termsOf items).bind Term.reduce := rfl
  simp only [h, bind_ok_iff, Term.reduce_eq_ok_iff]

theorem spans_termsOf (hs : Item.Spelled items ts) (h : termsOf items = .ok terms) :
    Term.Spans .primary terms ts := by
  induction hs generalizing terms with
  | nil =>
    obtain rfl := Except.ok.inj h
    exact .nil
  | @token t items ts _ _ ih =>
    obtain ⟨x, xs, hx, hxs, rfl⟩ := termsOf_cons_eq_ok_iff.mp h
    rw [termOf] at hx
    obtain rfl := Except.ok.inj hx
    split
    · next ht => exact .formula (.atom ht) (ih hxs)
    · exact .operator (ih hxs)
  | @group o c inner items us ts ho _ hc _ ihi ih =>
    obtain ⟨x, xs, hx, hxs, rfl⟩ := termsOf_cons_eq_ok_iff.mp h
    obtain ⟨f, hf, rfl⟩ := termOf_group_eq_ok_iff.mp hx
    obtain ⟨ys, hys, hr⟩ := ofItems_eq_ok_iff.mp hf
    have hd := (hr.spans (ihi hys)).singleton
    simpa using Term.Spans.formula (.group ho hc hd) (ih hxs)

/-- What is derived at a grade is spelled by items whose terms make it in the stages up to that
grade. -/
theorem exists_readsTo (h : Derives g ts f) : ∃ items terms, Item.Spelled items ts ∧
    termsOf items = .ok terms ∧ Term.ReadsTo terms g [.formula f] := by
  have operator : ∀ {t : Token} {c : Connective}, t.category = .connective c →
      ¬ t.category.IsParenthesis ∧ t.category ≠ .atom := by
    intro t c ht
    simp [ht, Category.IsParenthesis]
  induction h with
  | @atom t ht =>
    exact ⟨[.token t], [.formula (.leaf t.text)], .token (by simp [ht, Category.IsParenthesis]) .nil,
      termsOf_token rfl ht, .primary⟩
  | @group o c ts f ho hc _ ih =>
    obtain ⟨items, terms, hs, ht, hr⟩ := ih
    exact ⟨[.group items], [.formula f], .group ho hs hc .nil,
      termsOf_group (ofItems_eq_ok_iff.mpr ⟨terms, ht, hr⟩) rfl, .primary⟩
  | @negation t ts f ht _ ih =>
    obtain ⟨items, terms, hs, hi, hr⟩ := ih
    refine ⟨.token t :: items, .operator t :: terms, .token (operator ht).1 hs,
      termsOf_operator hi (operator ht).2, .negation ?_⟩
    cases hr with
    | chain hg => exact absurd rfl hg
    | negation hr =>
      rw [Term.negations, if_pos ht]
      exact Term.negations_succ hr
  | @chain g t c ts us l r hc ht _ _ ihl ihr =>
    obtain ⟨items, terms, hs, hi, hr⟩ := ihl
    obtain ⟨items', terms', hs', hi', hr'⟩ := ihr
    refine ⟨items ++ .token t :: items', terms ++ .operator t :: terms',
      hs.append (.token (operator ht).1 hs'), ?_, hr.snoc hr' hc ht⟩
    exact termsOf_append hi (termsOf_operator hi' (operator ht).2)
  | tighter _ ih =>
    obtain ⟨items, terms, hs, hi, hr⟩ := ih
    exact ⟨items, terms, hs, hi, hr.loosen⟩

/-- Building finds the formulas that the grammar derives, and only those. -/
theorem build_eq_ok_iff : build ts = .ok f ↔ Derives .disjunction ts f := by
  constructor
  · intro h
    rw [build] at h
    split at h
    · cases h
    · next items hg =>
      obtain ⟨terms, ht, hr⟩ := ofItems_eq_ok_iff.mp h
      exact (hr.spans (spans_termsOf (Item.groups_eq_ok_iff.mp hg) ht)).singleton
  · intro h
    obtain ⟨items, terms, hs, ht, hr⟩ := exists_readsTo h
    rw [build, Item.groups_eq_ok_iff.mpr hs]
    exact ofItems_eq_ok_iff.mpr ⟨terms, ht, hr⟩

end Formula

/-- The grammar is unambiguous. -/
theorem Derives.unique {ts : List Token} {f f' : Formula} (h : Derives .disjunction ts f)
    (h' : Derives .disjunction ts f') : f = f' :=
  Except.ok.inj ((Formula.build_eq_ok_iff.mpr h).symm.trans (Formula.build_eq_ok_iff.mpr h'))

namespace Formula

variable {tokens : List Token} {limit : Int} {f : Formula}

theorem ofTokens_within (hne : tokens ≠ []) (hw : (weight tokens : Int) ≤ limit) :
    ofTokens limit tokens = match build tokens with
      | .ok f => .ok (some f)
      | .error cause => .error (.malformed cause) := by
  rw [ofTokens, if_neg (by simpa using hne)]
  exact if_neg (by omega)

theorem ofTokens_eq_some_iff : ofTokens limit tokens = .ok (some f) ↔
    (weight tokens : Int) ≤ limit ∧ Derives .disjunction tokens f := by
  constructor
  · intro h
    rw [ofTokens] at h
    split at h
    · cases h
    · split at h
      · cases h
      · split at h
        · next g hg =>
          obtain rfl := Option.some.inj (Except.ok.inj h)
          exact ⟨by omega, build_eq_ok_iff.mp hg⟩
        · cases h
  · rintro ⟨hw, hf⟩
    rw [ofTokens_within hf.ne_nil hw, build_eq_ok_iff.mpr hf]

/-- **Reading accepts the grammar.** A list of tokens within the limit makes the formula that the
grammar derives from the whole list; if there is none, the list is reported as malformed. -/
theorem ofTokens_iff_derives (hne : tokens ≠ []) (hw : (weight tokens : Int) ≤ limit) :
    (∀ root, ofTokens limit tokens = .ok root ↔ ∃ f, root = some f ∧ Derives .disjunction tokens f) ∧
    ((∀ f, ¬ Derives .disjunction tokens f) →
      ∃ cause, ofTokens limit tokens = .error (.malformed cause)) := by
  refine ⟨fun root => ?_, fun hno => ?_⟩
  · cases root with
    | none =>
      rw [ofTokens_within hne hw]
      split <;> simp
    | some f =>
      rw [ofTokens_eq_some_iff]
      constructor
      · rintro ⟨-, hf⟩
        exact ⟨f, rfl, hf⟩
      · rintro ⟨f', hf', hf⟩
        exact ⟨hw, Option.some.inj hf' ▸ hf⟩
  · rw [ofTokens_within hne hw]
    split
    · next f hf => exact absurd (build_eq_ok_iff.mp hf) (hno f)
    · next cause _ => exact ⟨cause, rfl⟩

/-- `A -> B <-> (1)`: the conditional and the biconditional form one chain. -/
theorem ofTokens_chain_of_conditionals :
    ofTokens 3 [.ofAtom "A", .ofConnective .implies, .ofAtom "B", .ofConnective .xnor, .opening,
      .ofAtom "1", .closing] =
      .ok (some (.binary .xnor (.binary .implies (.leaf "A") (.leaf "B")) (.leaf "1"))) := by
  refine ((ofTokens_iff_derives (by decide) (by decide)).1 _).mpr ⟨_, rfl, ?_⟩
  have hA : Derives .primary [.ofAtom "A"] (.leaf "A") := .atom rfl
  have hB : Derives .primary [.ofAtom "B"] (.leaf "B") := .atom rfl
  have h1 : Derives .primary [.ofAtom "1"] (.leaf "1") := .atom rfl
  have hAB : Derives .conditional [.ofAtom "A", .ofConnective .implies, .ofAtom "B"]
      (.binary .implies (.leaf "A") (.leaf "B")) :=
    .chain (g := .conditional) (by decide) rfl (.tighter (.tighter hA)) (.tighter hB)
  have hg : Derives .primary [.opening, .ofAtom "1", .closing] (.leaf "1") :=
    .group rfl rfl h1.to_disjunction
  exact (Derives.chain (g := .conditional) (by decide) rfl hAB (.tighter hg)).to_disjunction

end Formula
end Sentential
