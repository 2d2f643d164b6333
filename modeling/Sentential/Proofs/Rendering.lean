/-
# Rendered formulas

A rendered formula is the spelling of a list of tokens, which every style shares: the symbols of
the formula in the order in which they are written, with the parentheses that the rule puts in.
From these tokens the grammar derives the formula, since an operand that is left bare has a grade
at which its place takes it. So in the style in which formulas are typed, a rendered formula is
accepted and read back.

In every style the tokens can be told from the text. No spelling of a reserved symbol begins
another one or an atom, and no name runs on; hence a formula is determined by its rendering, and a
rendering names it.

Key definitions: `Formula.tokens`, `Formula.grade`, `Token.spell`, `Token.spelling`.
Key theorems: `Formula.derives_tokens`, `Formula.toList_render`, `Token.eq_of_spell_eq`,
`Formula.eq_of_render_eq`, `Formula.IsWellFormed.read_spelling`, `Formula.read_render`.
-/
import Sentential.Formula
import Sentential.Proofs.Agreement

namespace Sentential

namespace Formula

/-- The tokens in parentheses if asked to. -/
def enclose (needed : Bool) (ts : List Token) : List Token :=
  if needed then .opening :: ts ++ [.closing] else ts

/-- The tokens of a rendered formula. -/
def tokens : Formula → List Token
  | leaf name => [.ofAtom name]
  | unary c x => .ofConnective c :: enclose (x.needsParentheses c false) x.tokens
  | binary c l r => enclose (l.needsParentheses c false) l.tokens ++
      .ofConnective c :: enclose (r.needsParentheses c true) r.tokens

/-- The grade at which the tokens of a formula derive it. -/
def grade : Formula → Grade
  | leaf _ => .primary
  | unary c _ => c.grade
  | binary c _ _ => c.grade

variable {f g l r x : Formula} {c : Connective} {style : Style}

theorem place_le_of_bare (h : x.needsParentheses c false = false) :
    x.grade.place ≤ c.grade.place := by
  have hc : ∀ d : Connective, d.bindsLooser c = false → d.grade.place ≤ c.grade.place := by
    intro d
    cases c <;> cases d <;> decide
  cases x with
  | leaf name => exact Nat.zero_le _
  | unary d x | binary d l r =>
    exact hc d (by simpa [needsParentheses, connective?] using h)

theorem place_lt_of_bare (hne : c ≠ .not) (h : x.needsParentheses c true = false) :
    x.grade.place ≤ c.grade.tighter.place := by
  have hc : ∀ d : Connective, d.bindsLooser c = false ∧ (d.pass == c.pass) = false →
      d.grade.place ≤ c.grade.tighter.place := by
    intro d
    cases c <;> cases d <;> first | exact absurd rfl hne | decide
  cases x with
  | leaf name => exact Nat.zero_le _
  | unary d x | binary d l r =>
    exact hc d (by simpa [needsParentheses, connective?] using h)

theorem derives_enclose {needed : Bool} {ts : List Token} {k : Grade}
    (h : Derives x.grade ts x) (hk : needed = false → x.grade.place ≤ k.place) :
    Derives k (enclose needed ts) x := by
  cases needed with
  | false => exact h.mono (hk rfl)
  | true => exact (Derives.group rfl rfl h.to_disjunction).mono (Nat.zero_le _)

/-- **The grammar derives a formula from its tokens.** -/
theorem derives_tokens (h : f.IsProper) : Derives f.grade f.tokens f := by
  induction f with
  | leaf name => exact .atom rfl
  | unary c x ih =>
    obtain ⟨rfl, hx⟩ := h
    exact .negation rfl (derives_enclose (ih hx) place_le_of_bare)
  | binary c l r ihl ihr =>
    obtain ⟨hc, hl, hr⟩ := h
    exact .chain (Grade.mem_connectives.2 ⟨hc, rfl⟩) rfl (derives_enclose (ihl hl) place_le_of_bare)
      (derives_enclose (ihr hr) (place_lt_of_bare hc))

end Formula

namespace Token

/-- The text of a token in a style; connectives with two operands stand between spaces. -/
def spell (style : Style) (t : Token) : List Char :=
  match t.category with
  | .connective .not => (style.glyph .not).toList
  | .connective c => ' ' :: (style.glyph c).toList ++ [' ']
  | _ => t.text.toList

variable {t u : Token} {ts us : List Token} {rest rest' : List Char} {style : Style}

theorem spell_atom (h : t.category = .atom) : spell style t = t.text.toList := by
  rw [spell, h]

/-- The spelling of a reserved symbol begins with no character of a name. -/
theorem spell_of_mem_reserved (h : t ∈ reserved) :
    spell style t ≠ [] ∧ isNameChar ((spell style t).headD ' ') = false := by
  revert t
  cases style <;> decide

theorem eq_of_spell_begins (ht : t ∈ reserved) (hu : u ∈ reserved)
    (h : spell style t <+: spell style u) : t = u := by
  have hd : ∀ t ∈ reserved, ∀ u ∈ reserved, spell style t <+: spell style u → t = u := by
    cases style <;> decide
  exact hd t ht u hu h

theorem isNameChar_head_of_mem_reserved (style : Style) (rest : List Char) (h : t ∈ reserved) :
    isNameChar ((spell style t ++ rest).headD ' ') = false := by
  obtain ⟨hne, hc⟩ : spell style t ≠ [] ∧ _ := spell_of_mem_reserved h
  obtain ⟨c, cs, hs⟩ := List.exists_cons_of_ne_nil hne
  rw [hs] at hc ⊢
  exact hc

theorem eq_of_spell_append (ht : t.IsSymbol) (hu : u.IsSymbol) (he : t.EndsAt rest)
    (he' : u.EndsAt rest') (h : spell style t ++ rest = spell style u ++ rest') :
    t = u ∧ rest = rest' := by
  rcases ht with ht | ht <;> rcases hu with hu | hu
  -- of two reserved symbols, the spelling of one would begin that of the other
  · obtain rfl : t = u := by
      rcases List.prefix_or_prefix_of_prefix ⟨rest, h⟩ ⟨rest', rfl⟩ with hp | hp
      · exact eq_of_spell_begins ht hu hp
      · exact (eq_of_spell_begins hu ht hp).symm
    exact ⟨rfl, List.append_cancel_left h⟩
  · have := isNameChar_head_of_mem_reserved style rest ht
    rw [h, spell_atom hu.1, isNameChar_head_of_atom rest' hu.2] at this
    cases this
  · have := isNameChar_head_of_mem_reserved style rest' hu
    rw [← h, spell_atom ht.1, isNameChar_head_of_atom rest ht.2] at this
    cases this
  · rw [spell_atom ht.1, spell_atom hu.1] at h
    have h1 := atom?_eq_some_iff.mpr ⟨rfl, ht, he⟩
    have h2 := atom?_eq_some_iff.mpr ⟨h, hu, he'⟩
    exact Prod.mk.inj (Option.some.inj (h1.symm.trans h2))

theorem endsAt_spell (hs : ∀ u ∈ ts, u.IsSymbol) (h : Separated (t :: ts)) :
    t.EndsAt (ts.flatMap (spell style)) := by
  intro hn
  cases ts with
  | nil => rfl
  | cons u ts =>
    rw [List.flatMap_cons]
    rcases hs u (List.mem_cons_self ..) with hr | ha
    · exact isNameChar_head_of_mem_reserved style _ hr
    · rw [spell_atom ha.1]
      have hi := (List.isChain_cons_cons.mp h).1 hn
      have := isNameChar_head_of_atom [] ha.2
      rw [List.append_nil] at this
      rw [initial, this] at hi
      cases hi

theorem spell_ne_nil (h : t.IsSymbol) : spell style t ≠ [] := by
  rcases h with hr | ha
  · exact (spell_of_mem_reserved hr).1
  · rw [spell_atom ha.1]
    exact IsSymbol.text (.inr ha) |>.1

/-- **In every style the tokens of a text can be told.** -/
theorem eq_of_spell_eq (hs : ∀ t ∈ ts, t.IsSymbol) (hs' : ∀ u ∈ us, u.IsSymbol)
    (hn : Separated ts) (hn' : Separated us)
    (h : ts.flatMap (spell style) = us.flatMap (spell style)) : ts = us := by
  induction ts generalizing us with
  | nil =>
    cases us with
    | nil => rfl
    | cons u us =>
      refine absurd (List.append_eq_nil_iff.mp h.symm).1 (spell_ne_nil (hs' u ?_))
      exact List.mem_cons_self ..
  | cons t ts ih =>
    cases us with
    | nil =>
      refine absurd (List.append_eq_nil_iff.mp h).1 (spell_ne_nil (hs t ?_))
      exact List.mem_cons_self ..
    | cons u us =>
      have ht : ∀ v ∈ ts, v.IsSymbol := fun v hv => hs v (List.mem_cons_of_mem _ hv)
      have hu : ∀ v ∈ us, v.IsSymbol := fun v hv => hs' v (List.mem_cons_of_mem _ hv)
      obtain ⟨rfl, hr⟩ := eq_of_spell_append (hs t (List.mem_cons_self ..))
        (hs' u (List.mem_cons_self ..)) (endsAt_spell ht hn) (endsAt_spell hu hn') h
      rw [ih ht hu hn.tail hn'.tail hr]

/-- Spelled as it is typed, a symbol is its text, between blanks or not. -/
theorem spell_source (h : t.IsSymbol) : spell .source t = t.text.toList ∨
    spell .source t = ' ' :: t.text.toList ++ [' '] := by
  rcases h with hr | ha
  · revert t
    decide
  · exact .inl (spell_atom ha.1)

theorem cut_spell (hs : ∀ t ∈ ts, t.IsSymbol) (hn : Separated ts) :
    Cut (ts.flatMap (spell .source)) ts := by
  induction ts with
  | nil => exact .nil
  | cons t ts ih =>
    have ht := hs t (List.mem_cons_self ..)
    have hts : ∀ u ∈ ts, u.IsSymbol := fun u hu => hs u (List.mem_cons_of_mem _ hu)
    have hc := ih hts hn.tail
    rw [List.flatMap_cons]
    rcases spell_source ht with h | h <;> rw [h]
    · exact .token ht (endsAt_spell hts hn) hc
    · rw [List.cons_append, List.cons_append, List.append_assoc]
      exact .blank rfl (.token ht (fun _ => rfl) (.blank rfl hc))

/-- The tokens as they are typed. -/
def spelling (ts : List Token) : String := String.ofList (ts.flatMap (spell .source))

theorem spelling_append : spelling (ts ++ us) = spelling ts ++ spelling us := by
  rw [spelling, List.flatMap_append, String.ofList_append]
  rfl

theorem cut_spelling (hs : ∀ t ∈ ts, t.IsSymbol) (ha : Accepts ts) :
    Cut (spelling ts).toList ts := by
  rw [spelling, String.toList_ofList]
  exact cut_spell hs (separated_of_isChain hs (isChain_of_run? ha))

theorem ofText_spelling (hs : ∀ t ∈ ts, t.IsSymbol) (hu : ts.map upper = ts) (ha : Accepts ts) :
    ofText (spelling ts) = ts := by
  rw [ofText_of_cut (cut_spelling hs ha) (separated_of_isChain hs (isChain_of_run? ha)), hu]

end Token

namespace Formula

variable {f g l r x : Formula} {c : Connective} {style : Style} {ts : List Token}

theorem toList_parenthesize {needed : Bool} {s : String}
    (h : s.toList = ts.flatMap (Token.spell style)) :
    (parenthesize needed s).toList = (enclose needed ts).flatMap (Token.spell style) := by
  cases needed with
  | false => exact h
  | true =>
    simp only [parenthesize, enclose, if_true, String.toList_append, h, List.flatMap_append,
      List.flatMap_cons, List.flatMap_nil, List.append_nil]
    rfl

/-- A rendered formula is spelled by its tokens. -/
theorem toList_render (h : f.IsProper) :
    (f.render style).toList = f.tokens.flatMap (Token.spell style) := by
  induction f with
  | leaf name =>
    rw [tokens, List.flatMap_cons, List.flatMap_nil, List.append_nil]
    rfl
  | unary c x ih =>
    obtain ⟨rfl, hx⟩ := h
    rw [render, tokens, String.toList_append, List.flatMap_cons, toList_parenthesize (ih hx)]
    rfl
  | binary c l r ihl ihr =>
    obtain ⟨hc, hl, hr⟩ := h
    have hs : Token.spell style (.ofConnective c) = " ".toList ++ (style.glyph c).toList ++
        " ".toList := by
      cases c <;> first | exact absurd rfl hc | rfl
    simp only [render, tokens, String.toList_append, List.flatMap_append, List.flatMap_cons,
      toList_parenthesize (ihl hl), toList_parenthesize (ihr hr), hs, List.append_assoc]

theorem render_eq_spelling (h : f.IsProper) : f.render .source = Token.spelling f.tokens := by
  rw [← String.toList_inj, toList_render h, Token.spelling, String.toList_ofList]

theorem mem_enclose {needed : Bool} {t : Token} (h : t ∈ enclose needed ts) :
    t ∈ Token.reserved ∨ t ∈ ts := by
  cases needed with
  | false => exact .inr h
  | true =>
    rw [enclose, if_pos rfl, List.mem_append, List.mem_cons, List.mem_singleton] at h
    rcases h with (rfl | h) | rfl
    · exact .inl (by decide)
    · exact .inr h
    · exact .inl (by decide)

theorem mem_tokens {t : Token} (h : t ∈ f.tokens) :
    t ∈ Token.reserved ∨ ∃ name ∈ f.leaves, t = .ofAtom name := by
  have hc : ∀ c : Connective, Token.ofConnective c ∈ Token.reserved := by
    intro c
    cases c <;> decide
  induction f with
  | leaf name => exact .inr ⟨name, List.mem_singleton_self _, List.mem_singleton.mp h⟩
  | unary c x ih =>
    rcases List.mem_cons.mp h with rfl | h
    · exact .inl (hc c)
    · exact (mem_enclose h).elim .inl ih
  | binary c l r ihl ihr =>
    rcases List.mem_append.mp h with h | h
    · refine (mem_enclose h).elim .inl fun h => (ihl h).imp_right ?_
      exact fun ⟨name, hn, ht⟩ => ⟨name, List.mem_append_left _ hn, ht⟩
    · rcases List.mem_cons.mp h with rfl | h
      · exact .inl (hc c)
      · refine (mem_enclose h).elim .inl fun h => (ihr h).imp_right ?_
        exact fun ⟨name, hn, ht⟩ => ⟨name, List.mem_append_right _ hn, ht⟩

theorem IsWellFormed.isSymbol (h : f.IsWellFormed) : ∀ t ∈ f.tokens, t.IsSymbol := by
  intro t ht
  rcases mem_tokens ht with hr | ⟨name, hn, rfl⟩
  · exact .inl hr
  · exact .inr ⟨rfl, (h.2 name hn).imp_left Token.isName_of_isUpperName⟩

theorem IsWellFormed.map_upper (h : f.IsWellFormed) : f.tokens.map Token.upper = f.tokens := by
  refine (List.map_congr_left fun t ht => ?_).trans (List.map_id _)
  rcases mem_tokens ht with hr | ⟨name, hn, rfl⟩
  · exact Token.upper_of_mem_reserved hr
  · exact Token.upper_of_isUpperName rfl (h.2 name hn)

theorem IsWellFormed.accepts (h : f.IsWellFormed) : Token.Accepts f.tokens :=
  Token.run?_of_derives (derives_tokens h.1) 0

theorem IsWellFormed.separated (h : f.IsWellFormed) : Token.Separated f.tokens :=
  Token.separated_of_isChain h.isSymbol (Token.isChain_of_run? h.accepts)

/-- **A formula is determined by its rendering.** -/
theorem eq_of_render_eq (hf : f.IsWellFormed) (hg : g.IsWellFormed)
    (h : f.render style = g.render style) : f = g := by
  have hs : f.tokens.flatMap (Token.spell style) = g.tokens.flatMap (Token.spell style) := by
    rw [← toList_render hf.1, ← toList_render hg.1, h]
  have ht := Token.eq_of_spell_eq hf.isSymbol hg.isSymbol hf.separated hg.separated hs
  have hd := (derives_tokens hf.1).to_disjunction
  rw [ht] at hd
  exact hd.unique (derives_tokens hg.1).to_disjunction

/-- Some of the tokens of a well-formed formula, in a list that is accepted, are typed, checked and
read as these tokens. -/
theorem IsWellFormed.read_spelling (h : f.IsWellFormed) (hs : ts ⊆ f.tokens)
    (ha : Token.Accepts ts) : Verdict.ofText (Token.spelling ts) = .accepted ∧
      Token.ofText (Token.spelling ts) = ts := by
  have hsymbol : ∀ t ∈ ts, t.IsSymbol := fun t ht => h.isSymbol t (hs ht)
  have hupper : ts.map Token.upper = ts := by
    have hid := List.map_inj_left.mp (h.map_upper.trans (List.map_id _).symm)
    exact (List.map_congr_left fun t ht => hid t (hs ht)).trans (List.map_id _)
  exact ⟨Verdict.ofText_eq_accepted_iff_cut.mpr ⟨ts, Token.cut_spelling hsymbol ha, ha⟩,
    Token.ofText_spelling hsymbol hupper ha⟩

theorem accepted_render (h : f.IsWellFormed) : Verdict.ofText (f.render .source) = .accepted := by
  rw [render_eq_spelling h.1]
  exact (h.read_spelling (List.Subset.refl _) h.accepts).1

theorem ofText_render (h : f.IsWellFormed) : Token.ofText (f.render .source) = f.tokens := by
  rw [render_eq_spelling h.1]
  exact (h.read_spelling (List.Subset.refl _) h.accepts).2

/-- **A formula is read back from its rendering.** As it is typed, the rendering of a well-formed
formula is accepted, and that formula is read from it under every sufficient limit. -/
theorem read_render (h : f.IsWellFormed) : Verdict.ofText (f.render .source) = .accepted ∧
    ∀ m : Int, (weight (Token.ofText (f.render .source)) : Int) ≤ m →
      ofText m (f.render .source) = .ok (some f) := by
  refine ⟨accepted_render h, fun m hm => ofTokens_eq_some_iff.mpr ⟨hm, ?_⟩⟩
  rw [ofText_render h]
  exact (derives_tokens h.1).to_disjunction

/-- On the right, a conditional in a biconditional is read back because it is put in parentheses. -/
theorem read_render_nested_conditional :
    (binary .xnor (leaf "P") (binary .implies (unary .not (leaf "Q")) (leaf "1"))).IsWellFormed ∧
    Verdict.ofText "P <-> (!Q -> 1)" = .accepted ∧ ofText 4 "P <-> (!Q -> 1)" =
      .ok (some (binary .xnor (leaf "P") (binary .implies (unary .not (leaf "Q")) (leaf "1")))) := by
  have hf : (binary .xnor (leaf "P")
      (binary .implies (unary .not (leaf "Q")) (leaf "1"))).IsWellFormed := by
    refine ⟨⟨by decide, trivial, by decide, ⟨rfl, trivial⟩, trivial⟩, ?_⟩
    intro name hn
    simp only [leaves, List.mem_append, List.mem_singleton] at hn
    rcases hn with rfl | rfl | rfl
    · exact .inl ⟨'P', [], rfl, by decide, by simp⟩
    · exact .inl ⟨'Q', [], rfl, by decide, by simp⟩
    · exact .inr (.inr rfl)
  have hr : (binary .xnor (leaf "P") (binary .implies (unary .not (leaf "Q")) (leaf "1"))).render
      .source = "P <-> (!Q -> 1)" := by decide
  have hw := congrArg weight (ofText_render hf)
  have h := read_render hf
  rw [hr] at h hw
  exact ⟨hf, h.1, h.2 4 (by rw [hw]; decide)⟩

end Formula
end Sentential
