/-
# Operands in their place

What an operand stands in is a path of frames, the innermost first: each is a connective with its
other operand, if it takes two. In the rendered formula the tokens of the operand, in parentheses or
not, stand between those that each frame puts before them and those that it puts after them.

If other tokens are put in the place of the operand, and the grammar derives it from them at the
grade of its frame, it derives the whole formula. The converse holds of tokens that are accepted by
themselves and have the connectives of the operand: the connectives of a formula are those of its
tokens, so that counting them tells where in a chain the operand ends, and no operand ends inside
the parentheses that it opens.

Key definitions: `Formula.Fits`, `Formula.Frame`, `Formula.Path`, `Formula.Frame.grade`.
Key theorems: `Derives.of_group`, `Derives.of_negation`, `Derives.of_chain`,
`Formula.Frame.derives_of_fill`, `Formula.place_le_of_derives_tokens`, `Formula.Path.tokens_plug`,
`Formula.Path.derives_plug`, `Formula.Path.derives_of_plug`, `Formula.Path.exists_plug_iff`.
-/
import Sentential.Proofs.Rendering
import Sentential.Proofs.Subformulas

namespace Sentential

namespace Token

variable {t u o : Token} {ts us ts' us' : List Token} {c k : Connective} {d e : Nat} {b b' : Bool}

theorem run?_succ (h : run? d b ts = some (e, b')) : run? (d + 1) b ts = some (e + 1, b') := by
  have hdepth : ∀ {k : Category} {d d' : Nat}, Verdict.depthAfter k d = some d' →
      Verdict.depthAfter k (d + 1) = some (d' + 1) := by
    intro k d d' hd
    cases k <;> cases d <;> simp_all [Verdict.depthAfter]
  induction ts generalizing d b with
  | nil =>
    obtain ⟨rfl, rfl⟩ := Prod.mk.inj (Option.some.inj h)
    rfl
  | cons t ts ih =>
    rw [run?_token] at h ⊢
    split at h
    · cases h
    · next d' hd =>
      simp only [hdepth hd]
      split at h
      · cases h
      · next hs => rw [if_neg hs, ih h]

theorem run?_of_accepts (h : Accepts ts) (d : Nat) : run? d false ts = some (d, true) := by
  induction d with
  | zero => exact h
  | succ d ih => exact run?_succ ih

theorem Accepts.negation (ht : t.category = .connective .not) (h : Accepts ts) :
    Accepts (t :: ts) := by
  rwa [Accepts, run?_not ht, if_neg (by decide)]

theorem Accepts.chain (ht : t.category = .connective c) (hc : c ≠ .not) (hl : Accepts ts)
    (hr : Accepts us) : Accepts (ts ++ t :: us) := by
  rwa [Accepts, run?_append, hl, Option.bind_some, run?_connective ht hc, if_pos rfl]

theorem Accepts.group (ho : o.category = .opening) (ht : t.category = .closing)
    (h : Accepts ts) : Accepts (o :: ts ++ [t]) := by
  rw [Accepts, List.cons_append, run?_opening ho, if_neg (by decide), run?_append,
    run?_of_accepts h, Option.bind_some, run?_closing ht]
  rfl

/-- No operand ends inside the parentheses that it opens. -/
theorem not_accepts_of_group (ho : o.category = .opening) (hu : u.category = .closing)
    (ht : t.category = .connective c) (hg : Accepts ts') (h : ts ++ t :: us = o :: ts' ++ [u]) :
    ¬ Accepts ts := by
  intro ha
  cases ts with
  | nil => cases ha
  | cons a ts =>
    rw [List.cons_append, List.cons_append, List.cons.injEq] at h
    obtain ⟨rfl, hts⟩ := h
    rcases List.eq_nil_or_concat' us with rfl | ⟨us, v, rfl⟩
    · obtain ⟨-, htu⟩ := List.append_inj' hts rfl
      rw [List.cons.inj htu |>.1, hu] at ht
      cases ht
    · rw [← List.cons_append, ← List.append_assoc] at hts
      obtain ⟨hinner, -⟩ := List.append_inj' hts rfl
      -- the parenthesis is still open where the first part ends
      rw [Accepts, ← hinner, run?_append] at hg
      obtain ⟨⟨e, b⟩, he, -⟩ := Option.bind_eq_some_iff.mp hg
      rw [Accepts, run?_opening ho, if_neg (by decide), run?_succ he] at ha
      cases ha

theorem append_cons_inj (ht : t.category = .connective c) (hu : u.category = .connective k)
    (hc : (connectives ts).length = (connectives us).length) (h : ts ++ t :: ts' = us ++ u :: us') :
    ts = us ∧ t = u ∧ ts' = us' := by
  -- if one first part is longer, it has the connective behind the other, which is one more
  rcases List.append_eq_append_iff.mp h with ⟨vs, rfl, hvs⟩ | ⟨vs, rfl, hvs⟩
  all_goals
    cases vs with
    | nil =>
      obtain ⟨rfl, rfl⟩ := List.cons.inj hvs
      simp
    | cons v vs =>
      obtain ⟨rfl, -⟩ := List.cons.inj hvs
      rw [connectives_append, connectives_cons (by assumption), List.length_append,
        List.length_cons] at hc
      omega

end Token

/-! ### Derivations turned round -/

namespace Formula

/-- The tokens may stand in the place of the formula: they are accepted by themselves, and they have
its connectives in their order. -/
structure Fits (ts : List Token) (f : Formula) : Prop where
  accepts : Token.Accepts ts
  connectives : Token.connectives ts = f.connectives

end Formula

namespace Derives

open Formula (Fits)

variable {g : Grade} {t o : Token} {ts us : List Token} {f l r x : Formula} {c k : Connective}

theorem fits (h : Derives g ts f) : Fits ts f :=
  ⟨Token.run?_of_derives h 0, h.connectives_eq.symm⟩

/-- What is derived from tokens in parentheses is derived from the tokens. -/
theorem of_group (ho : o.category = .opening) (ht : t.category = .closing)
    (ha : Token.Accepts ts) (h : Derives g (o :: ts ++ [t]) f) : Derives .disjunction ts f := by
  generalize hvs : o :: ts ++ [t] = vs at h
  induction h with
  | atom =>
    have hlen := congrArg List.length hvs
    simp at hlen
  | group _ _ h =>
    obtain ⟨-, hts⟩ := List.cons.inj hvs
    rwa [(List.append_inj' hts rfl).1]
  | negation hn =>
    rw [← (List.cons.inj hvs).1, ho] at hn
    cases hn
  | chain _ hc hl =>
    exact absurd hl.fits.accepts (Token.not_accepts_of_group ho ht hc ha hvs.symm)
  | tighter _ ih => exact ih hvs

/-- A negation is derived from its sign and tokens of its operand, at no tighter grade. -/
theorem of_negation (ht : t.category = .connective .not) (h : Derives g (t :: ts) (.unary c x)) :
    Grade.negation.place ≤ g.place ∧ Derives .negation ts x := by
  generalize hvs : t :: ts = vs at h
  generalize hf : Formula.unary c x = f at h
  induction h with
  | atom | chain => cases hf
  | group ho =>
    rw [← (List.cons.inj hvs).1, ht] at ho
    cases ho
  | negation _ h =>
    obtain ⟨-, rfl⟩ := List.cons.inj hvs
    obtain ⟨-, rfl⟩ := Formula.unary.inj hf
    exact ⟨Nat.le_refl _, h⟩
  | tighter _ ih =>
    obtain ⟨hg, hx⟩ := ih hvs hf
    exact ⟨hg.trans (Grade.tighter_place_le _), hx⟩

/-- A compound with two operands is derived from tokens of both, at no tighter grade, if what stands
before a connective may stand in the place of the left one. -/
theorem of_chain (ht : t.category = .connective k) (hl : Fits ts l)
    (h : Derives g (ts ++ t :: us) (.binary c l r)) :
    c.grade.place ≤ g.place ∧ Derives c.grade ts l ∧ Derives c.grade.tighter us r := by
  generalize hvs : ts ++ t :: us = vs at h
  generalize hf : Formula.binary c l r = f at h
  induction h with
  | atom | negation => cases hf
  | group ho hc h =>
    exact absurd hl.accepts (Token.not_accepts_of_group ho hc ht h.fits.accepts hvs)
  | chain hm ht' h h' =>
    obtain ⟨rfl, rfl, rfl⟩ := Formula.binary.inj hf
    obtain ⟨-, rfl⟩ := Grade.mem_connectives.1 hm
    have hc := congrArg List.length (hl.connectives.trans h.connectives_eq)
    obtain ⟨rfl, -, rfl⟩ := Token.append_cons_inj ht ht' hc hvs
    exact ⟨Nat.le_refl _, h, h'⟩
  | tighter _ ih =>
    obtain ⟨hg, hx⟩ := ih hvs hf
    exact ⟨hg.trans (Grade.tighter_place_le _), hx⟩

end Derives

namespace Formula

variable {g : Grade} {ts us : List Token} {f l r x : Formula} {c : Connective} {needed : Bool}

/-! ### Frames -/

/-- What one operand of a connective stands in: the connective and its other operand, if any. -/
inductive Frame
  | unary (c : Connective)
  | left (c : Connective) (r : Formula)
  | right (c : Connective) (l : Formula)

theorem fits_tokens (h : f.IsProper) : Fits f.tokens f := (derives_tokens h).fits

theorem Fits.enclose (h : Fits ts f) : Fits (enclose needed ts) f := by
  cases needed with
  | false => exact h
  | true =>
    refine ⟨h.accepts.group rfl rfl, ?_⟩
    have hopening : ∀ c, Token.opening.category ≠ .connective c := fun _ h => by cases h
    rw [Formula.enclose, if_pos rfl, List.cons_append, Token.connectives_cons_of_forall_ne hopening,
      Token.connectives_append, h.connectives]
    exact List.append_nil _

namespace Frame

/-- The compound of the operand and its frame. -/
def fill : Frame → Formula → Formula
  | unary c, x => .unary c x
  | left c r, x => .binary c x r
  | right c l, x => .binary c l x

/-- The frame puts the operand in parentheses. -/
def encloses : Frame → Formula → Bool
  | unary c, x | left c _, x => x.needsParentheses c false
  | right c _, x => x.needsParentheses c true

/-- The tokens that stand before the operand. -/
def before : Frame → List Token
  | unary c => [.ofConnective c]
  | left _ _ => []
  | right c l => enclose (l.needsParentheses c false) l.tokens ++ [.ofConnective c]

/-- The tokens that stand after the operand. -/
def after : Frame → List Token
  | unary _ | right _ _ => []
  | left c r => .ofConnective c :: enclose (r.needsParentheses c true) r.tokens

/-- The loosest grade at which the operand can stand bare. -/
def grade : Frame → Grade
  | unary c | left c _ => c.grade
  | right c _ => c.grade.tighter

/-- The connective has as many operands as it takes, and so have those in the other operand. -/
def IsProper : Frame → Prop
  | unary c => c = .not
  | left c y | right c y => c ≠ .not ∧ y.IsProper

variable {fr : Frame}

theorem isProper_fill : (fr.fill x).IsProper ↔ fr.IsProper ∧ x.IsProper := by
  cases fr <;> simp only [fill, Formula.IsProper, IsProper] <;> tauto

theorem tokens_fill : (fr.fill x).tokens =
    fr.before ++ enclose (fr.encloses x) x.tokens ++ fr.after := by
  cases fr <;> simp [fill, tokens, before, after, encloses]

theorem derives_enclosed (hfr : fr.IsProper) (h : Derives x.grade ts x) :
    Derives fr.grade (enclose (fr.encloses x) ts) x := by
  cases fr with
  | unary c => exact derives_enclose h place_le_of_bare
  | left c r => exact derives_enclose h place_le_of_bare
  | right c l => exact derives_enclose h (place_lt_of_bare hfr.1)

theorem derives_fill (hfr : fr.IsProper) (h : Derives fr.grade ts x) :
    Derives (fr.fill x).grade (fr.before ++ ts ++ fr.after) (fr.fill x) := by
  cases fr with
  | unary c =>
    obtain rfl : c = .not := hfr
    rw [after, List.append_nil]
    exact .negation rfl h
  | left c r =>
    obtain ⟨hc, hr⟩ := hfr
    have hr' : Derives c.grade.tighter (enclose (r.needsParentheses c true) r.tokens) r :=
      derives_enclose (derives_tokens hr) (place_lt_of_bare hc)
    exact .chain (Grade.mem_connectives.2 ⟨hc, rfl⟩) rfl h hr'
  | right c l =>
    obtain ⟨hc, hl⟩ := hfr
    have hl' : Derives c.grade (enclose (l.needsParentheses c false) l.tokens) l :=
      derives_enclose (derives_tokens hl) place_le_of_bare
    rw [before, after, List.append_nil, List.append_assoc]
    exact .chain (Grade.mem_connectives.2 ⟨hc, rfl⟩) rfl hl' h

/-- What may stand in the place of the operand may stand, in its frame, in that of the compound. -/
theorem fits_fill (hfr : fr.IsProper) (h : Fits ts x) :
    Fits (fr.before ++ ts ++ fr.after) (fr.fill x) := by
  cases fr with
  | unary c =>
    obtain rfl : c = .not := hfr
    rw [after, List.append_nil]
    refine ⟨h.accepts.negation rfl, ?_⟩
    rw [before, List.singleton_append, Token.connectives_cons rfl, h.connectives]
    rfl
  | left c r =>
    have hr : Fits (enclose (r.needsParentheses c true) r.tokens) r := (fits_tokens hfr.2).enclose
    refine ⟨h.accepts.chain rfl hfr.1 hr.accepts, ?_⟩
    rw [before, after, List.nil_append, Token.connectives_append, Token.connectives_cons rfl,
      h.connectives, hr.connectives]
    rfl
  | right c l =>
    have hl : Fits (enclose (l.needsParentheses c false) l.tokens) l := (fits_tokens hfr.2).enclose
    rw [before, after, List.append_nil, List.append_assoc]
    refine ⟨hl.accepts.chain rfl hfr.1 h.accepts, ?_⟩
    rw [Token.connectives_append, List.singleton_append, Token.connectives_cons rfl,
      h.connectives, hl.connectives]
    rfl

/-- **A compound is derived through its operand**: from tokens that may stand in its place, the
operand is derived at the grade of the frame, and the compound at no tighter grade than its own. -/
theorem derives_of_fill (hfr : fr.IsProper) (hx : Fits ts x)
    (h : Derives g (fr.before ++ ts ++ fr.after) (fr.fill x)) :
    (fr.fill x).grade.place ≤ g.place ∧ Derives fr.grade ts x := by
  cases fr with
  | unary c =>
    obtain rfl : c = .not := hfr
    rw [after, List.append_nil] at h
    exact Derives.of_negation rfl h
  | left c r =>
    obtain ⟨hg, hl, -⟩ := Derives.of_chain rfl hx h
    exact ⟨hg, hl⟩
  | right c l =>
    rw [before, after, List.append_nil, List.append_assoc] at h
    obtain ⟨hg, -, hr⟩ := Derives.of_chain rfl (fits_tokens hfr.2).enclose h
    exact ⟨hg, hr⟩

end Frame

/-- No formula is derived from its own tokens at a tighter grade. -/
theorem place_le_of_derives_tokens (hf : f.IsProper) (h : Derives g f.tokens f) :
    f.grade.place ≤ g.place := by
  have through : ∀ (fr : Frame) (x : Formula), fr.fill x = f → f.grade.place ≤ g.place := by
    rintro fr x rfl
    obtain ⟨hfr, hx⟩ := Frame.isProper_fill.mp hf
    rw [Frame.tokens_fill] at h
    exact (Frame.derives_of_fill hfr (fits_tokens hx).enclose h).1
  cases f with
  | leaf name => exact Nat.zero_le _
  | unary c x => exact through (.unary c) x rfl
  | binary c l r => exact through (.left c r) l rfl

/-! ### Paths -/

/-- The frames around a formula inside another, the innermost first. -/
abbrev Path := List Frame

namespace Path

/-- The formula around the operand. -/
def plug : Path → Formula → Formula
  | [], x => x
  | fr :: path, x => plug path (fr.fill x)

/-- The tokens before those of the operand. -/
def before : Path → Formula → List Token
  | [], _ => []
  | fr :: path, x =>
    before path (fr.fill x) ++ fr.before ++ if fr.encloses x then [.opening] else []

/-- The tokens after those of the operand. -/
def after : Path → Formula → List Token
  | [], _ => []
  | fr :: path, x =>
    (if fr.encloses x then [.closing] else []) ++ fr.after ++ after path (fr.fill x)

variable {fr : Frame} {path : Path}

/-- Around the operand stands its innermost frame, and around the compound of both the others. -/
theorem around_cons (fr : Frame) (path : Path) (x : Formula) (ts : List Token) :
    before (fr :: path) x ++ ts ++ after (fr :: path) x = before path (fr.fill x) ++
      (fr.before ++ enclose (fr.encloses x) ts ++ fr.after) ++ after path (fr.fill x) := by
  rw [before, after]
  cases fr.encloses x <;> simp [enclose]

theorem isProper_plug : (plug path x).IsProper ↔ (∀ fr ∈ path, fr.IsProper) ∧ x.IsProper := by
  induction path generalizing x with
  | nil => simp [plug]
  | cons fr path ih =>
    rw [plug, ih, Frame.isProper_fill, List.forall_mem_cons]
    tauto

/-- The tokens of the operand stand in those of the formula. -/
theorem tokens_plug : (plug path x).tokens = before path x ++ x.tokens ++ after path x := by
  induction path generalizing x with
  | nil => exact (List.append_nil _).symm
  | cons fr path ih => rw [plug, ih, Frame.tokens_fill, around_cons]

/-- The formula is derived if the operand is derived from the tokens in its place. -/
theorem derives_plug (hp : ∀ fr ∈ path, fr.IsProper) (h : Derives x.grade ts x) :
    Derives (plug path x).grade (before path x ++ ts ++ after path x) (plug path x) := by
  induction path generalizing x ts with
  | nil => rwa [before, after, List.append_nil]
  | cons fr path ih =>
    obtain ⟨hfr, hp⟩ := List.forall_mem_cons.mp hp
    rw [around_cons]
    exact ih hp (Frame.derives_fill hfr (Frame.derives_enclosed hfr h))

theorem fits_plug (hp : ∀ fr ∈ path, fr.IsProper) (h : Fits ts x) :
    Fits (before path x ++ ts ++ after path x) (plug path x) := by
  induction path generalizing x ts with
  | nil => rwa [before, after, List.append_nil]
  | cons fr path ih =>
    obtain ⟨hfr, hp⟩ := List.forall_mem_cons.mp hp
    rw [around_cons]
    exact ih hp (Frame.fits_fill hfr h.enclose)

/-- **A formula is derived through its operands.** If tokens that may stand in the place of the
operand do so, and the formula is derived, the operand is derived from them. -/
theorem derives_of_plug (hp : ∀ fr ∈ path, fr.IsProper) (hx : Fits ts x)
    (h : Derives .disjunction (before path x ++ ts ++ after path x) (plug path x)) :
    Derives .disjunction ts x := by
  induction path generalizing x ts with
  | nil => rwa [before, after, List.append_nil] at h
  | cons fr path ih =>
    obtain ⟨hfr, hp⟩ := List.forall_mem_cons.mp hp
    rw [around_cons] at h
    have hfill := ih hp (Frame.fits_fill hfr hx.enclose) h
    obtain ⟨-, hd⟩ := Frame.derives_of_fill hfr hx.enclose hfill
    cases he : fr.encloses x with
    | false =>
      rw [he] at hd
      exact Derives.to_disjunction hd
    | true =>
      rw [he] at hd
      exact Derives.of_group rfl rfl hx.accepts hd

/-- Frames are around all subformulas, and around nothing else. -/
theorem exists_plug_iff : (∃ path, plug path x = f) ↔ x ∈ f.subformulas := by
  constructor
  · rintro ⟨path, rfl⟩
    induction path generalizing x with
    | nil => exact x.self_mem_subformulas
    | cons fr path ih =>
      have hx : x ∈ (fr.fill x).subformulas :=
        mem_subformulas_of_operand (by cases fr <;> simp [Frame.fill, operands])
      exact subformulas_subset ih hx
  · refine descend (P := fun s => ∃ path, plug path s = f) ?_ ?_ ⟨[], rfl⟩
    · rintro c x ⟨path, h⟩
      exact ⟨.unary c :: path, h⟩
    · rintro c l r ⟨path, h⟩
      exact ⟨⟨.left c r :: path, h⟩, ⟨.right c l :: path, h⟩⟩

end Path

end Formula
end Sentential
