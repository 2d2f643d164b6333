/-
# Chains in one sweep

The connectives of a pass are joined one at a time, each time the first that is left, with the
search starting anew after every join. A single sweep from left to right does the same: it keeps
the terms it has passed, in reverse order, and joins each connective of the pass to the last of
them and to the term that comes next. The first connective that is left when a search starts anew
never stands among the terms passed, so both meet the same connectives, succeed with the same
terms, and fail at the same token.

Key definitions: `Term.joined?`, `Term.sweep`, `Term.Swept`, `Term.operators`, `Term.JoinsIn`,
`Term.StandsBetween`.
Key theorems: `Term.join_append_eq_sweep`, `Term.join_eq_sweep`, `Term.exists_joinsIn_iff`,
`Term.sweep_append`, `Term.operators_of_sweep`, `Term.sweep_eq_error_iff`,
`Term.joins_in_one_sweep`.
-/
import Sentential.Formula.Build

namespace Sentential
namespace Term

/-- The connective of a token if it is one of `cs`. -/
def joined? (cs : List Connective) (t : Token) : Option Connective :=
  match t.category with
  | .connective c => if c ∈ cs then some c else none
  | _ => none

theorem joined?_eq_some {cs : List Connective} {t : Token} {c : Connective} :
    joined? cs t = some c ↔ c ∈ cs ∧ t.category = .connective c := by
  unfold joined?
  split
  · next d hd =>
    rw [hd]
    by_cases h : d ∈ cs
    · rw [if_pos h]
      constructor
      · intro hc
        obtain rfl := Option.some.inj hc
        exact ⟨h, rfl⟩
      · rintro ⟨_, hc⟩
        rw [Category.connective.inj hc]
    · rw [if_neg h]
      constructor
      · intro hc
        cases hc
      · rintro ⟨hc, he⟩
        exact absurd (Category.connective.inj he ▸ hc) h
  · next hd =>
    constructor
    · intro hc
      cases hc
    · rintro ⟨_, hc⟩
      exact absurd hc (hd c)

/-- Joins the connectives out of `cs` in one walk over the terms; the terms passed are kept in
reverse order. -/
def sweep (cs : List Connective) : (passed : List Term) → List Term → Except Malformed (List Term)
  | passed, [] => .ok passed.reverse
  | passed, formula f :: terms => sweep cs (formula f :: passed) terms
  | passed, operator t :: terms =>
    match joined? cs t with
    | none => sweep cs (operator t :: passed) terms
    | some c =>
      match passed, terms with
      | formula l :: passed, formula r :: terms =>
        sweep cs (formula (.binary c l r) :: passed) terms
      | _, _ => .error (.withoutOperands t)

/-- No connective out of `cs` is left among the terms. -/
def Swept (cs : List Connective) (terms : List Term) : Prop :=
  ∀ t, operator t ∈ terms → joined? cs t = none

/-- The token of a term that is not joined yet. -/
def operator? : Term → Option Token
  | operator t => some t
  | formula _ => none

/-- The tokens among the terms that are not joined yet. -/
def operators (terms : List Term) : List Token := terms.filterMap operator?

/-- The search for the first connective out of `cs`, which starts anew after every join, comes to
its end after `n` joins: either none is left, or the one that is found cannot be joined. -/
inductive JoinsIn (cs : List Connective) : Nat → List Term → Except Malformed (List Term) → Prop
  | finished {terms : List Term} (h : joinFirst cs terms = .ok none) : JoinsIn cs 0 terms (.ok terms)
  | failed {terms : List Term} {e : Malformed} (h : joinFirst cs terms = .error e) :
      JoinsIn cs 0 terms (.error e)
  | again {n : Nat} {terms shorter : List Term} {r : Except Malformed (List Term)}
      (h : joinFirst cs terms = .ok (some shorter)) (hr : JoinsIn cs n shorter r) :
      JoinsIn cs (n + 1) terms r

/-- What stands between these terms has a formula on both sides. -/
def StandsBetween (left right : List Term) : Prop :=
  (∃ (before : List Term) (l : Formula), left = before ++ [formula l]) ∧
    ∃ (r : Formula) (after : List Term), right = formula r :: after

variable {cs : List Connective} {terms passed xs ys out : List Term} {t : Token}

theorem Swept.nil : Swept cs [] := fun _ h => absurd h List.not_mem_nil

theorem Swept.cons_formula (h : Swept cs terms) (f : Formula) : Swept cs (formula f :: terms) := by
  intro t ht
  exact h t ((List.mem_cons.mp ht).resolve_left (by simp))

theorem Swept.cons_operator (h : Swept cs terms) (ht : joined? cs t = none) :
    Swept cs (operator t :: terms) := by
  intro u hu
  rcases List.mem_cons.mp hu with hu | hu
  · obtain rfl := Term.operator.inj hu
    exact ht
  · exact h u hu

theorem Swept.of_cons {x : Term} (h : Swept cs (x :: terms)) : Swept cs terms :=
  fun t ht => h t (List.mem_cons_of_mem _ ht)

theorem splitFirst_operator (h : joined? cs t = none) : splitFirst cs (operator t :: terms) =
    (splitFirst cs terms).map fun (before, found) => (operator t :: before, found) := by
  rw [splitFirst]
  split
  · next c hc =>
    have hn : c ∉ cs := by
      intro hm
      simp [joined?_eq_some.2 ⟨hm, hc⟩] at h
    rw [if_neg hn]
  · rfl

theorem splitFirst_append_of_swept (h : Swept cs passed) (terms : List Term) :
    splitFirst cs (passed ++ terms) =
      (splitFirst cs terms).map fun (before, found) => (passed ++ before, found) := by
  induction passed with
  | nil => simp
  | cons x passed ih =>
    cases x with
    | formula f =>
      rw [List.cons_append, splitFirst, ih h.of_cons, Option.map_map]
      rfl
    | operator u =>
      rw [List.cons_append, splitFirst_operator (h u (List.mem_cons_self ..)), ih h.of_cons,
        Option.map_map]
      rfl

theorem splitFirst_of_swept (h : Swept cs terms) : splitFirst cs terms = none := by
  have := splitFirst_append_of_swept h []
  simpa [splitFirst] using this

theorem splitFirst_joined {c : Connective} (hp : Swept cs passed) (h : joined? cs t = some c) :
    splitFirst cs (passed ++ operator t :: terms) = some (passed, t, c, terms) := by
  obtain ⟨hm, hc⟩ := joined?_eq_some.1 h
  have hs : splitFirst cs (operator t :: terms) = some ([], t, c, terms) := by
    rw [splitFirst]
    simp [hc, hm]
  rw [splitFirst_append_of_swept hp, hs]
  simp

/-- One step of joining: the search for the first connective decides how it goes on. -/
theorem join_step : join cs terms = (joinFirst cs terms).bind fun
    | none => .ok terms
    | some shorter => join cs shorter := by
  rw [join]
  split <;> next h => rw [h]; rfl

/-- Where the terms passed hold no connective of the pass, joining from the start is sweeping on
from where the walk has come to. -/
theorem join_append_eq_sweep (hp : Swept cs passed) :
    join cs (passed.reverse ++ terms) = sweep cs passed terms := by
  have hr : ∀ {xs : List Term}, Swept cs xs → Swept cs xs.reverse :=
    fun h t ht => h t (List.mem_reverse.mp ht)
  fun_induction sweep cs passed terms with
  | case1 passed =>
    rw [List.append_nil, join_step, joinFirst, splitFirst_of_swept (hr hp)]
    rfl
  | case2 passed f terms ih =>
    rw [← ih (hp.cons_formula f)]
    simp
  | case3 passed t terms ht ih =>
    rw [← ih (hp.cons_operator ht)]
    simp
  | case4 t c ht l passed r terms ih =>
    -- the search finds this connective, and the join puts its formula where the walk goes on
    have hf : joinFirst cs ((formula l :: passed).reverse ++ operator t :: formula r :: terms) =
        .ok (some ((formula (.binary c l r) :: passed).reverse ++ terms)) := by
      rw [joinFirst, splitFirst_joined (hr hp) ht]
      simp
    rw [join_step, hf]
    exact ih (hp.of_cons.cons_formula _)
  | case5 passed t terms c ht hno =>
    have hf : joinFirst cs (passed.reverse ++ operator t :: terms) =
        .error (.withoutOperands t) := by
      rw [joinFirst, splitFirst_joined (hr hp) ht]
      simp only [List.getLast?_reverse]
      split
      · next l r after hl =>
        cases passed with
        | nil => simp at hl
        | cons x passed => exact (hno l passed r after (by simpa using hl) rfl).elim
      · rfl
    rw [join_step, hf]
    rfl

/-- Joining with a search that starts anew after each join is one sweep. -/
theorem join_eq_sweep : join cs terms = sweep cs [] terms :=
  join_append_eq_sweep Swept.nil

theorem sweep_operator (ht : joined? cs t = none) :
    sweep cs passed (operator t :: terms) = sweep cs (operator t :: passed) terms := by
  rw [sweep, ht]

theorem sweep_joined {c : Connective} {l r : Formula} (ht : joined? cs t = some c) :
    sweep cs (formula l :: passed) (operator t :: formula r :: terms) =
      sweep cs (formula (.binary c l r) :: passed) terms := by
  rw [sweep, ht]

theorem sweep_withoutOperands {c : Connective} (ht : joined? cs t = some c)
    (hno : ∀ l before r after, passed = formula l :: before → terms = formula r :: after → False) :
    sweep cs passed (operator t :: terms) = .error (.withoutOperands t) := by
  rw [sweep, ht]
  split
  · next hc => cases hc
  · split
    · next l before r after => exact (hno l before r after rfl rfl).elim
    · rfl

/-- What has been passed before a connective of another pass is out of reach. -/
theorem sweep_past_operator {ps qs : List Term} : sweep cs (ps ++ operator t :: qs) terms =
    (sweep cs ps terms).map fun out => qs.reverse ++ operator t :: out := by
  fun_induction sweep cs ps terms with
  | case1 ps => simp [sweep, Except.map]
  | case2 ps f terms ih => rw [← ih, sweep, List.cons_append]
  | case3 ps u terms hu ih => rw [← ih, sweep_operator hu, List.cons_append]
  | case4 u c hu l ps r terms ih => rw [← ih, List.cons_append, sweep_joined hu, List.cons_append]
  | case5 ps u terms c hu hno =>
    rw [sweep_withoutOperands hu]
    · rfl
    · intro l before r after hl hr
      cases ps with
      | nil => cases hl
      | cons x ps => exact hno l ps r after (by rw [(List.cons.inj hl).1]) hr

/-- A sweep over more terms goes on from what it has made of the first. -/
theorem sweep_append (h : sweep cs passed xs = .ok out) :
    sweep cs passed (xs ++ ys) = sweep cs out.reverse ys := by
  fun_induction sweep cs passed xs with
  | case1 passed =>
    obtain rfl := Except.ok.inj h
    rw [List.nil_append, List.reverse_reverse]
  | case2 passed f xs ih => rw [List.cons_append, sweep, ih h]
  | case3 passed u xs hu ih => rw [List.cons_append, sweep_operator hu, ih h]
  | case4 u c hu l passed r xs ih =>
    rw [List.cons_append, List.cons_append, sweep_joined hu, ih h]
  | case5 => cases h

theorem sweep_append_operator {xs' ys' : List Term} (hx : sweep cs passed xs = .ok xs')
    (hy : sweep cs [] ys = .ok ys') (ht : joined? cs t = none) :
    sweep cs passed (xs ++ operator t :: ys) = .ok (xs' ++ operator t :: ys') := by
  rw [sweep_append hx, sweep_operator ht, ← List.nil_append (operator t :: xs'.reverse),
    sweep_past_operator, hy, List.reverse_reverse]
  rfl

/-- A connective of the pass behind the terms is joined to the last formula that they make. -/
theorem sweep_snoc {c : Connective} {l r : Formula}
    (hx : sweep cs passed xs = .ok (out ++ [formula l])) (ht : joined? cs t = some c) :
    sweep cs passed (xs ++ [operator t, formula r]) = .ok (out ++ [formula (.binary c l r)]) := by
  rw [sweep_append hx, List.reverse_concat, sweep_joined ht]
  simp [sweep]

@[simp]
theorem join_formula {f : Formula} : join cs [formula f] = .ok [formula f] := by
  rw [join_eq_sweep]
  rfl

/-! ### What is left, and where a sweep fails -/

@[simp]
theorem operators_nil : operators [] = [] := rfl

@[simp]
theorem operators_cons_operator : operators (operator t :: terms) = t :: operators terms := rfl

@[simp]
theorem operators_cons_formula {f : Formula} : operators (formula f :: terms) = operators terms :=
  rfl

@[simp]
theorem operators_append : operators (xs ++ ys) = operators xs ++ operators ys :=
  List.filterMap_append

theorem mem_operators : t ∈ operators terms ↔ operator t ∈ terms := by
  rw [operators, List.mem_filterMap]
  constructor
  · rintro ⟨term, hm, h⟩
    cases term with
    | operator u => exact Option.some.inj h ▸ hm
    | formula f => cases h
  · intro h
    exact ⟨operator t, h, rfl⟩

/-- Of the operators ahead, a sweep uses up those out of `cs` and keeps the others in their order. -/
theorem operators_of_sweep (h : sweep cs passed terms = .ok out) : operators out =
    operators passed.reverse ++ (operators terms).filter fun t => (joined? cs t).isNone := by
  fun_induction sweep cs passed terms with
  | case1 passed =>
    obtain rfl := Except.ok.inj h
    simp
  | case2 passed f terms ih =>
    rw [ih h]
    simp
  | case3 passed t terms ht ih =>
    rw [ih h]
    simp [ht]
  | case4 t c ht l passed r terms ih =>
    rw [ih h]
    simp [ht]
  | case5 => cases h

/-- A sweep fails at a connective out of `cs` if what is before it can be joined, but the connective
does not stand between two formulas then. -/
theorem sweep_eq_error_iff {e : Malformed} : sweep cs passed terms = .error e ↔
    ∃ before t after out, terms = before ++ operator t :: after ∧ (joined? cs t).isSome ∧
      sweep cs passed before = .ok out ∧ ¬ StandsBetween out after ∧ e = .withoutOperands t := by
  constructor
  · intro h
    fun_induction sweep cs passed terms with
    | case1 => cases h
    | case2 passed f terms ih =>
      obtain ⟨before, t, after, out, rfl, ht, ho, hb⟩ := ih h
      exact ⟨formula f :: before, t, after, out, rfl, ht, ho, hb⟩
    | case3 passed u terms hu ih =>
      obtain ⟨before, t, after, out, rfl, ht, ho, hb⟩ := ih h
      exact ⟨operator u :: before, t, after, out, rfl, ht, (sweep_operator hu).trans ho, hb⟩
    | case4 u c hu l passed r terms ih =>
      obtain ⟨before, t, after, out, rfl, ht, ho, hb⟩ := ih h
      exact ⟨operator u :: formula r :: before, t, after, out, rfl, ht,
        (sweep_joined hu).trans ho, hb⟩
    | case5 passed t terms c ht hno =>
      refine ⟨[], t, terms, passed.reverse, rfl, by rw [ht]; rfl, rfl, ?_, (Except.error.inj h).symm⟩
      rintro ⟨⟨before, l, hl⟩, r, after, hr⟩
      rw [List.reverse_eq_iff, List.reverse_concat] at hl
      exact hno l before.reverse r after hl hr
  · rintro ⟨before, t, after, out, rfl, ht, ho, hb, rfl⟩
    obtain ⟨c, hc⟩ := Option.isSome_iff_exists.mp ht
    rw [sweep_append ho, sweep_withoutOperands hc]
    intro l before' r after' hl hr
    rw [List.reverse_eq_cons_iff] at hl
    exact hb ⟨⟨_, l, hl⟩, r, after', hr⟩

/-! ### The loop -/

/-- The search comes to one end, and this is the outcome of joining. -/
theorem exists_joinsIn_iff {r : Except Malformed (List Term)} :
    (∃ n, JoinsIn cs n terms r) ↔ join cs terms = r := by
  constructor
  · rintro ⟨n, h⟩
    induction h with
    | finished h | failed h =>
      rw [join_step, h]
      rfl
    | again h _ ih =>
      rw [join_step, h]
      exact ih
  · rintro rfl
    fun_induction join cs terms with
    | case1 terms e h => exact ⟨0, .failed h⟩
    | case2 terms h => exact ⟨0, .finished h⟩
    | case3 terms shorter h ih =>
      obtain ⟨n, hn⟩ := ih
      exact ⟨n + 1, .again h hn⟩

/-- **The joins of a pass make one sweep.** The search that starts anew after every join comes to an
end, whatever the terms and the connectives of the pass are, and its outcome is that of the sweep.
If it succeeds, no connective of the pass is left, and the other operators are those that there
were, in their order. If it fails, this is at a connective of the pass that does not stand between
two formulas when what is before it has been joined. -/
theorem joins_in_one_sweep (cs : List Connective) (terms : List Term) :
    join cs terms = sweep cs [] terms ∧
    (∀ r, (∃ n, JoinsIn cs n terms r) ↔ r = sweep cs [] terms) ∧
    (∀ out, join cs terms = .ok out → Swept cs out ∧
      operators out = (operators terms).filter fun t => (joined? cs t).isNone) ∧
    ∀ e, join cs terms = .error e ↔
      ∃ before t after out, terms = before ++ operator t :: after ∧ (joined? cs t).isSome ∧
        join cs before = .ok out ∧ ¬ StandsBetween out after ∧ e = .withoutOperands t := by
  refine ⟨join_eq_sweep, fun r => ?_, fun out h => ?_, fun e => ?_⟩
  · rw [exists_joinsIn_iff, join_eq_sweep, eq_comm]
  · rw [join_eq_sweep] at h
    have ho : operators out = (operators terms).filter fun t => (joined? cs t).isNone :=
      operators_of_sweep h
    refine ⟨fun t ht => ?_, ho⟩
    rw [← mem_operators, ho, List.mem_filter] at ht
    exact Option.isNone_iff_eq_none.mp ht.2
  · simp only [join_eq_sweep]
    exact sweep_eq_error_iff

/-- Two chains on either side of a conjunction sign, which stays. -/
theorem joins_in_one_sweep_two_chains :
    let cs := [Connective.xnor, .implies]
    let sign := fun c => operator (.ofConnective c)
    let atom := fun name => formula (.leaf name)
    let terms := [atom "A", sign .implies, atom "B", sign .xnor, atom "C", sign .and,
      atom "D", sign .xnor, atom "E"]
    let out := [formula (.binary .xnor (.binary .implies (.leaf "A") (.leaf "B")) (.leaf "C")),
      sign .and, formula (.binary .xnor (.leaf "D") (.leaf "E"))]
    join cs terms = .ok out ∧ (∃ n, JoinsIn cs n terms (.ok out)) ∧ Swept cs out ∧
      operators out = [.ofConnective .and] := by
  intro cs sign atom terms out
  obtain ⟨hsweep, hloop, hleft, -⟩ := joins_in_one_sweep cs terms
  have hout : sweep cs [] terms = .ok out := rfl
  have hjoin : join cs terms = .ok out := hsweep.trans hout
  exact ⟨hjoin, (hloop _).mpr hout.symm, hleft out hjoin⟩

end Term
end Sentential
