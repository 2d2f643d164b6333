/-
# The check accepts the grammar

Seen through the tokens alone, the check of a formula is an automaton with a counter: it knows how
many parentheses are open and whether an operand has just ended. It accepts a list of tokens
exactly if the grammar derives a formula from it. A derivation is read from left to right without
losing a step of the automaton. The other way round, an accepted list falls apart into an operand
and what follows it, and the operand joins what has been derived before it inside the same
parentheses, whatever the connective.

Key definitions: `Token.run?`, `Token.Accepts`.
Key theorems: `Token.run?_after`, `Token.run?_of_derives`, `Token.exists_operand`,
`Token.accepts_iff_derives`, `Token.isChain_of_run?`, `Verdict.judge_after`,
`Verdict.ofText_eq_accepted_iff`.
-/
import Sentential.Verdict
import Sentential.Proofs.Grammar
import Mathlib.Data.List.Chain

namespace Sentential
namespace Token

/-- The state of the check after the tokens, unless one of them is refused: the number of open
parentheses, and whether an operand has just ended. -/
def run? : (depth : Nat) → (afterTerm : Bool) → List Token → Option (Nat × Bool)
  | depth, afterTerm, [] => some (depth, afterTerm)
  | depth, afterTerm, t :: ts =>
    match Verdict.depthAfter t.category depth with
    | none => none
    | some depth => if t.category.startsTerm = afterTerm then none
      else run? depth t.category.endsTerm ts

/-- The check accepts the tokens: it ends after an operand, with no parenthesis open. -/
def Accepts (ts : List Token) : Prop := run? 0 false ts = some (0, true)

variable {g : Grade} {t : Token} {ts us : List Token} {f : Formula} {c : Connective} {d e : Nat}
  {b : Bool}

theorem run?_token : run? d b (t :: ts) = match Verdict.depthAfter t.category d with
    | none => none
    | some depth => if t.category.startsTerm = b then none
      else run? depth t.category.endsTerm ts := rfl

/-- One token further, where the one before it is of the category `last`, if there is one: the token
may stand there if its category may follow. -/
theorem run?_after {last : Option Category} : run? d (last.any Category.endsTerm) (t :: ts) =
    match Verdict.depthAfter t.category d with
    | none => none
    | some depth => if t.category ∈ Category.mayFollow last then
        run? depth ((some t.category).any Category.endsTerm) ts else none := by
  rw [run?_token]
  cases Verdict.depthAfter t.category d with
  | none => rfl
  | some depth =>
    simp only [Category.mem_mayFollow_iff, ne_eq, ite_not]
    rfl

theorem run?_append : run? d b (ts ++ us) = (run? d b ts).bind fun s => run? s.1 s.2 us := by
  induction ts generalizing d b with
  | nil => rfl
  | cons t ts ih =>
    rw [List.cons_append, run?_token, run?_token]
    cases Verdict.depthAfter t.category d with
    | none => rfl
    | some d' =>
      simp only
      split
      · rfl
      · exact ih

theorem run?_cons : run? d b (t :: ts) = (run? d b [t]).bind fun s => run? s.1 s.2 ts := by
  rw [← List.singleton_append, run?_append]

theorem run?_atom (ht : t.category = .atom) : run? d b (t :: ts) =
    if b then none else run? d true ts := by
  rw [run?_token, ht]
  cases b <;> rfl

theorem run?_opening (ht : t.category = .opening) : run? d b (t :: ts) =
    if b then none else run? (d + 1) false ts := by
  rw [run?_token, ht]
  cases b <;> rfl

theorem run?_not (ht : t.category = .connective .not) : run? d b (t :: ts) =
    if b then none else run? d false ts := by
  rw [run?_token, ht]
  cases b <;> rfl

theorem run?_closing (ht : t.category = .closing) : run? (d + 1) b (t :: ts) =
    if b then run? d true ts else none := by
  rw [run?_token, ht]
  cases b <;> rfl

theorem run?_closing_zero (ht : t.category = .closing) : run? 0 b (t :: ts) = none := by
  rw [run?_token, ht]
  rfl

theorem run?_connective (ht : t.category = .connective c) (hc : c ≠ .not) : run? d b (t :: ts) =
    if b then run? d false ts else none := by
  rw [run?_token, ht]
  cases b <;> cases c <;> first | exact absurd rfl hc | rfl

/-- The check reads a derived list as one operand, inside any parentheses. -/
theorem run?_of_derives (h : Derives g ts f) (d : Nat) : run? d false ts = some (d, true) := by
  induction h generalizing d with
  | atom ht =>
    rw [run?_atom ht]
    rfl
  | group ho hc _ ih =>
    rw [List.cons_append, run?_opening ho, if_neg (by decide), run?_append, ih, Option.bind_some,
      run?_closing hc]
    rfl
  | negation ht _ ih => rw [run?_not ht, if_neg (by decide), ih]
  | chain hm ht _ _ ihl ihr =>
    rw [run?_append, ihl, Option.bind_some, run?_connective ht (Grade.mem_connectives.1 hm).1,
      if_pos rfl, ihr]
  | tighter _ ih => exact ih d

mutual

/-- Where an operand is due, an accepted list begins with one. -/
theorem exists_operand (ts : List Token) (d : Nat) (h : run? d false ts = some (0, true)) :
    ∃ us vs f, ts = us ++ vs ∧ Derives .negation us f ∧ run? d true vs = some (0, true) := by
  match ts with
  | [] => cases h
  | t :: ts =>
    cases ht : t.category with
    | atom =>
      rw [run?_atom ht] at h
      exact ⟨[t], ts, _, rfl, .tighter (.atom ht), h⟩
    | opening =>
      rw [run?_opening ht] at h
      obtain ⟨us, vs, f, rfl, hf, hv⟩ := exists_operand ts (d + 1) h
      obtain ⟨us', vs', f', rfl, hf', hend⟩ := exists_end vs (d + 1) us f hv hf.to_disjunction
      rcases hend with ⟨hd, -⟩ | ⟨e, c, ws, hd, rfl, hc, hw⟩
      · cases hd
      · obtain rfl := Nat.succ.inj hd
        exact ⟨t :: (us ++ us') ++ [c], ws, f', by simp, .tighter (.group ht hc hf'), hw⟩
    | closing =>
      cases d with
      | zero => rw [run?_closing_zero ht] at h; cases h
      | succ d => rw [run?_closing ht] at h; cases h
    | connective c =>
      by_cases hc : c = .not
      · subst hc
        rw [run?_not ht] at h
        obtain ⟨us, vs, f, rfl, hf, hv⟩ := exists_operand ts d h
        exact ⟨t :: us, vs, _, rfl, .negation ht hf, hv⟩
      · rw [run?_connective ht hc] at h
        cases h
termination_by ts.length

/-- Behind an operand, what has been derived inside the current parentheses goes on to the end of
these, or of the list if none is open. -/
theorem exists_end (ts : List Token) (d : Nat) (ps : List Token) (f : Formula)
    (h : run? d true ts = some (0, true)) (hf : Derives .disjunction ps f) :
    ∃ us vs f', ts = us ++ vs ∧ Derives .disjunction (ps ++ us) f' ∧
      ((d = 0 ∧ vs = []) ∨ ∃ e c ws, d = e + 1 ∧ vs = c :: ws ∧ c.category = .closing ∧
        run? e true ws = some (0, true)) := by
  match ts with
  | [] =>
    have hd : d = 0 := by simpa [run?] using h
    exact ⟨[], [], f, rfl, by rwa [List.append_nil], .inl ⟨hd, rfl⟩⟩
  | t :: ts =>
    cases ht : t.category with
    | atom => rw [run?_atom ht] at h; cases h
    | opening => rw [run?_opening ht] at h; cases h
    | closing =>
      cases d with
      | zero => rw [run?_closing_zero ht] at h; cases h
      | succ d =>
        rw [run?_closing ht] at h
        exact ⟨[], t :: ts, f, rfl, by rwa [List.append_nil], .inr ⟨d, t, ts, rfl, rfl, ht, h⟩⟩
    | connective c =>
      by_cases hc : c = .not
      · subst hc
        rw [run?_not ht] at h
        cases h
      · rw [run?_connective ht hc] at h
        -- the operand behind the connective joins what has been derived, which then goes on
        obtain ⟨us, vs, r, rfl, hr, hv⟩ := exists_operand ts d h
        obtain ⟨f', hf'⟩ := hf.snoc hc (by cases c <;> decide) ht hr
        obtain ⟨us', vs', f'', rfl, hf'', hend⟩ := exists_end vs d _ f' hv hf'
        exact ⟨t :: (us ++ us'), vs', f'', by simp, by simpa using hf'', hend⟩
termination_by ts.length

end

/-- **The check accepts the grammar.** -/
theorem accepts_iff_derives : Accepts ts ↔ ∃ f, Derives .disjunction ts f := by
  constructor
  · intro h
    obtain ⟨us, vs, f, rfl, hf, hv⟩ := exists_operand ts 0 h
    obtain ⟨us', vs', f', rfl, hf', hend⟩ := exists_end vs 0 us f hv hf.to_disjunction
    rcases hend with ⟨-, rfl⟩ | ⟨e, c, ws, hd, -⟩
    · exact ⟨f', by simpa using hf'⟩
    · cases hd
  · rintro ⟨f, hf⟩
    exact run?_of_derives hf 0

theorem run?_congr (h : ts.map Token.category = us.map Token.category) :
    run? d b ts = run? d b us := by
  induction ts generalizing us d b with
  | nil =>
    obtain rfl := List.map_eq_nil_iff.mp h.symm
    rfl
  | cons t ts ih =>
    cases us with
    | nil => cases h
    | cons u us =>
      obtain ⟨hc, hs⟩ := List.cons.inj h
      rw [run?_token, run?_token, hc]
      split
      · rfl
      · split
        · rfl
        · exact ih hs

theorem afterTerm_of_run? {s : Nat × Bool} (h : run? d b (ts ++ [t]) = some s) :
    s.2 = (some t.category).any Category.endsTerm := by
  rw [run?_append] at h
  obtain ⟨s', -, h⟩ := Option.bind_eq_some_iff.mp h
  rw [run?_token] at h
  split at h
  · cases h
  · split at h
    · cases h
    · rw [← Option.some.inj h]
      rfl

/-- Each token is of a category that may follow the one before it. -/
theorem isChain_of_run? (h : run? d b ts = some (e, true)) :
    ts.IsChain fun t u => u.category ∈ Category.mayFollow (some t.category) := by
  induction ts generalizing d b with
  | nil => exact .nil
  | cons t ts ih =>
    rw [run?_cons] at h
    obtain ⟨s, hs, h⟩ := Option.bind_eq_some_iff.mp h
    have hchain := ih h
    have hs' : run? d b ([] ++ [t]) = some s := hs
    rw [afterTerm_of_run? hs'] at h
    cases ts with
    | nil => exact .singleton t
    | cons u ts =>
      refine .cons_cons ?_ hchain
      by_contra hu
      rw [run?_after] at h
      split at h
      · cases h
      · rw [if_neg hu] at h
        cases h

end Token

namespace Verdict

variable {ending n d : Nat} {b : Bool} {pieces : List Piece} {t : Token} {ts : List Token}

/-- One token further, where the one before it is of the category `last`, if there is one: the token
is unexpected if its category may not follow, or if it closes a parenthesis too many. -/
theorem judge_after {last : Option Category} :
    judge ending d (last.any Category.endsTerm) (⟨n, .token t⟩ :: pieces) =
      match depthAfter t.category d with
      | none => .rejected (.unexpected t.initial) n
      | some depth =>
        if t.category ∈ Category.mayFollow last then
          judge ending depth ((some t.category).any Category.endsTerm) pieces
        else .rejected (.unexpected t.initial) n := by
  rw [judge]
  cases depthAfter t.category d with
  | none => rfl
  | some depth =>
    simp only [Category.mem_mayFollow_iff, ne_eq, ite_not]
    rfl

theorem judge_token : judge ending d b (⟨n, .token t⟩ :: pieces) =
    match Token.run? d b [t] with
    | none => .rejected (.unexpected t.initial) n
    | some s => judge ending s.1 s.2 pieces := by
  obtain ⟨last, rfl⟩ : ∃ last : Option Category, last.any Category.endsTerm = b := by
    cases b with
    | false => exact ⟨none, rfl⟩
    | true => exact ⟨some .atom, rfl⟩
  rw [judge_after, Token.run?_after]
  cases depthAfter t.category d with
  | none => rfl
  | some depth =>
    simp only
    split <;> rfl

theorem judge_eq_accepted_iff_run? (h : pieces.map Piece.lexeme = ts.map .token) :
    judge ending d b pieces = .accepted ↔ Token.run? d b ts = some (0, true) := by
  induction ts generalizing pieces d b with
  | nil =>
    obtain rfl := List.map_eq_nil_iff.mp h
    cases b <;> cases d <;> simp [judge, Token.run?]
  | cons t ts ih =>
    obtain ⟨⟨position, lexeme⟩, pieces, rfl, ht, hs⟩ := List.map_eq_cons_iff.mp h
    obtain rfl : lexeme = .token t := ht
    have hstep : Token.run? d b (t :: ts) = _ := Token.run?_cons
    rw [judge_token, hstep]
    cases Token.run? d b [t] with
    | none => simp
    | some s => exact ih hs

theorem exists_tokens_of_judge (h : judge ending d b pieces = .accepted) :
    ∃ ts : List Token, pieces.map Piece.lexeme = ts.map .token := by
  induction pieces generalizing d b with
  | nil => exact ⟨[], rfl⟩
  | cons piece pieces ih =>
    obtain ⟨position, lexeme⟩ := piece
    cases lexeme with
    | stray c => cases h
    | token t =>
      rw [judge_token] at h
      split at h
      · cases h
      · obtain ⟨ts, hts⟩ := ih h
        exact ⟨t :: ts, by rw [List.map_cons, List.map_cons, hts]⟩

/-- A text is accepted if it is made of tokens that are accepted, and nothing else. -/
theorem ofText_eq_accepted_iff {text : String} : ofText text = .accepted ↔ ∃ ts : List Token,
    (Piece.sequence 0 text.toList).map Piece.lexeme = ts.map .token ∧ Token.Accepts ts := by
  constructor
  · intro h
    obtain ⟨ts, hts⟩ := exists_tokens_of_judge h
    exact ⟨ts, hts, (judge_eq_accepted_iff_run? hts).mp h⟩
  · rintro ⟨ts, hts, h⟩
    exact (judge_eq_accepted_iff_run? hts).mpr h

end Verdict
end Sentential
