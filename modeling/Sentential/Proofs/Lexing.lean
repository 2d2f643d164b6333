/-
# Texts made of tokens

Where a text is made of tokens, with blanks between them as they like, both ways of cutting it
agree: the check, which goes through the text as it stands, and the reader, which first drops the
blanks and turns to upper case. Dropping blanks could run two names together, or a name and a
literal, so the agreement needs that no name has a character of a name right behind it in the
tokens; an accepted formula has not, because a connective or a parenthesis follows every atom.

Key definitions: `Token.IsName`, `Token.IsSymbol`, `Token.EndsAt`, `Token.Cut`, `Token.Splits`,
`Token.SplitsFrom`, `Token.upper`, `Token.Separated`.
Key theorems: `Token.atStart?_eq_some_iff`, `Token.atStart?_eq_none_iff`, `Token.lexemes_eq_iff_cut`,
`Token.splitsFrom_iff_splits`, `Token.normalForm_of_cut`, `Token.splits_normalForm`,
`Token.ofText_of_cut`, `Token.separated_of_isChain`, `Token.separated_of_splits`.
-/
import Sentential.Token
import Sentential.Verdict
import Mathlib

namespace Sentential
namespace Token

/-- The text is a name. -/
def IsName (s : String) : Prop :=
  ∃ c cs, s.toList = c :: cs ∧ isNameStart c = true ∧ ∀ d ∈ cs, isNameChar d = true

/-- The text is a name in upper case. -/
def IsUpperName (s : String) : Prop :=
  ∃ c cs, s.toList = c :: cs ∧ (c.isUpper ∨ c = '_') ∧ ∀ d ∈ cs, d.isUpper ∨ d.isDigit ∨ d = '_'

/-- The text is one of the two literals. -/
def IsBit (s : String) : Prop := s = "0" ∨ s = "1"

/-- The token is a reserved symbol, a name or a literal. -/
def IsSymbol (t : Token) : Prop :=
  t ∈ reserved ∨ t.category = .atom ∧ (IsName t.text ∨ IsBit t.text)

/-- The token ends before what is left of a text: if it is a name, no character of a name follows
it. -/
def EndsAt (t : Token) (rest : List Char) : Prop :=
  IsName t.text → isNameChar (rest.headD ' ') = false

/-- The text is made of the tokens, with blanks anywhere between them. -/
inductive Cut : List Char → List Token → Prop
  | nil : Cut [] []
  | blank {b : Char} {cs : List Char} {ts : List Token} (hb : Text.isBlank b = true)
      (h : Cut cs ts) : Cut (b :: cs) ts
  | token {t : Token} {cs : List Char} {ts : List Token} (ht : t.IsSymbol) (he : t.EndsAt cs)
      (h : Cut cs ts) : Cut (t.text.toList ++ cs) (t :: ts)

/-- The text is cut into the tokens from its start on, each found where the one before it ends. -/
inductive Splits : List Char → List Token → Prop
  | nil : Splits [] []
  | cons {t : Token} {cs rest : List Char} {ts : List Token}
      (ht : atStart? cs = some (t, rest)) (h : Splits rest ts) : Splits cs (t :: ts)

/-- The text is cut into the tokens from the position `n` on, each found by its index and as far
behind the one before it as that is long. -/
def SplitsFrom (text : String) : (n : Nat) → List Token → Prop
  | n, [] => n = text.length
  | n, t :: ts => atIndex? text n = some t ∧ SplitsFrom text (n + t.text.length) ts

/-- No name has a character of a name right behind it. -/
def Separated (ts : List Token) : Prop :=
  ts.IsChain fun t u => IsName t.text → isNameChar u.initial = false

def upper (t : Token) : Token := ⟨t.category, String.ofList (Text.upper t.text.toList)⟩

variable {t u : Token} {ts us : List Token} {c : Char} {cs rest : List Char} {s : String}

/-! ### Characters of tokens -/

theorem of_ascii {P : Char → Prop} (h : ∀ n : Fin 128, P (Char.ofNat n)) (hc : c.toNat < 128) :
    P c := by
  have := h ⟨c.toNat, hc⟩
  rwa [Char.ofNat_toNat] at this

theorem toNat_lt_of_isNameChar (h : isNameChar c = true) : c.toNat < 128 := by
  simp only [isNameChar, Char.isAlphanum, Char.isAlpha, Char.isUpper, Char.isLower, Char.isDigit,
    Bool.or_eq_true, Bool.and_eq_true, decide_eq_true_eq, beq_iff_eq, ge_iff_le,
    UInt32.le_iff_toNat_le] at h
  have hv : c.toNat = c.val.toNat := rfl
  rcases h with ((h | h) | h) | rfl
  · have : c.val.toNat ≤ 90 := h.2
    omega
  · have : c.val.toNat ≤ 122 := h.2
    omega
  · have : c.val.toNat ≤ 57 := h.2
    omega
  · decide

theorem isNameChar_of_isNameStart (h : isNameStart c = true) : isNameChar c = true := by
  simp only [isNameStart, isNameChar, Char.isAlphanum, Bool.or_eq_true] at h ⊢
  tauto

/-- A character of a name is no blank, and no character of a name is lost in upper case. -/
theorem ascii_of_isNameChar (h : isNameChar c = true) : Text.isBlank c = false ∧
    (c.toUpper.isUpper ∨ c.toUpper.isDigit ∨ c.toUpper = '_') ∧
    (isNameStart c = true → c.toUpper.isUpper ∨ c.toUpper = '_') := by
  have hc := toNat_lt_of_isNameChar h
  revert h
  exact of_ascii (P := fun c => isNameChar c = true → Text.isBlank c = false ∧
    (c.toUpper.isUpper ∨ c.toUpper.isDigit ∨ c.toUpper = '_') ∧
    (isNameStart c = true → c.toUpper.isUpper ∨ c.toUpper = '_')) (by decide) hc

theorem isNameChar_toUpper (h : isNameChar c = false) (hc : c.toNat < 128) :
    isNameChar c.toUpper = false := by
  revert h
  exact of_ascii (P := fun c => isNameChar c = false → isNameChar c.toUpper = false) (by decide) hc

theorem isNameChar_of_upper (h : c.isUpper ∨ c.isDigit ∨ c = '_') :
    isNameChar c = true ∧ c.toUpper = c := by
  have hn : isNameChar c = true := by
    simp only [isNameChar, Char.isAlphanum, Char.isAlpha, Bool.or_eq_true, beq_iff_eq]
    tauto
  have hc := toNat_lt_of_isNameChar hn
  refine ⟨hn, ?_⟩
  revert h
  exact of_ascii (P := fun c => (c.isUpper ∨ c.isDigit ∨ c = '_') → c.toUpper = c) (by decide) hc

/-! ### The token at the start of a text -/

theorem not_isName_of_mem_reserved (h : t ∈ reserved) : ¬ IsName t.text := by
  rintro ⟨c, cs, ht, hc, -⟩
  have hd : ∀ t ∈ reserved, isNameStart (t.text.toList.headD ' ') = false := by decide
  have := hd t h
  rw [ht] at this
  exact absurd hc (by simpa using this)

theorem not_isName_of_isBit (h : IsBit s) : ¬ IsName s := by
  rintro ⟨c, cs, hs, hc, -⟩
  rcases h with rfl | rfl <;> cases hs <;> exact absurd hc (by decide)

theorem literalValue?_of_isName (h : IsName s) : literalValue? s = none := by
  have hbit : ¬ IsBit s := fun hb => not_isName_of_isBit hb h
  rw [IsBit, not_or] at hbit
  simp [literalValue?, hbit.1, hbit.2]

/-- The text of a symbol is not empty, and holds characters of ASCII only, none of them blank. -/
theorem IsSymbol.text (h : t.IsSymbol) : t.text.toList ≠ [] ∧
    ∀ c ∈ t.text.toList, c.toNat < 128 ∧ Text.isBlank c = false := by
  -- `List.all` and not a quantifier, which would be decided for every character there is
  have plain : ∀ s : String, s ∈ reserved.map Token.text ++ ["0", "1"] → s.toList ≠ [] ∧
      s.toList.all (fun c => decide (c.toNat < 128) && !Text.isBlank c) = true := by decide
  have tested : t.text ∈ reserved.map Token.text ++ ["0", "1"] → t.text.toList ≠ [] ∧
      ∀ c ∈ t.text.toList, c.toNat < 128 ∧ Text.isBlank c = false := fun hm => by
    simpa using plain t.text hm
  rcases h with h | ⟨-, ⟨c, cs, ht, hc, hcs⟩ | ht⟩
  · exact tested (List.mem_append_left _ (List.mem_map_of_mem h))
  · rw [ht]
    refine ⟨List.cons_ne_nil _ _, fun d hd => ?_⟩
    have hd : isNameChar d = true := by
      rcases List.mem_cons.mp hd with rfl | hd
      · exact isNameChar_of_isNameStart hc
      · exact hcs d hd
    exact ⟨toNat_lt_of_isNameChar hd, (ascii_of_isNameChar hd).1⟩
  · refine tested (List.mem_append_right _ ?_)
    rcases ht with ht | ht <;> simp [ht]

theorem isNameChar_head_of_atom (rest : List Char) (h : IsName t.text ∨ IsBit t.text) :
    isNameChar ((t.text.toList ++ rest).headD ' ') = true := by
  rcases h with ⟨c, cs, ht, hc, -⟩ | hb
  · rw [ht]
    exact isNameChar_of_isNameStart hc
  · rcases hb with hb | hb <;> rw [hb] <;> rfl

theorem reserved?_cons_of_atom (h : isNameStart c = true ∨ c = '0' ∨ c = '1') :
    reserved? (c :: cs) = none := by
  unfold reserved?
  split <;> first
    | rfl
    | (next heq => obtain ⟨rfl, -⟩ := List.cons.inj heq; exact absurd h (by decide))

theorem takeWhile_isNameChar (h : isNameChar (rest.headD ' ') = false) :
    rest.takeWhile isNameChar = [] ∧ rest.dropWhile isNameChar = rest := by
  cases rest with
  | nil => exact ⟨rfl, rfl⟩
  | cons c rest =>
    have hc : ¬ isNameChar c = true := by simpa using h
    exact ⟨List.takeWhile_cons_of_neg hc, List.dropWhile_cons_of_neg hc⟩

/-- The atom at the start of a text is the longest name there, or a literal. -/
theorem atom?_eq_some_iff : atom? cs = some (t, rest) ↔ cs = t.text.toList ++ rest ∧
    (t.category = .atom ∧ (IsName t.text ∨ IsBit t.text)) ∧ t.EndsAt rest := by
  constructor
  · intro h
    refine ⟨(eq_append_of_atom? h).1, ?_⟩
    cases cs with
    | nil => cases h
    | cons c cs =>
      rw [atom?] at h
      split at h
      · next hc =>
        obtain ⟨rfl, rfl⟩ := Prod.mk.inj (Option.some.inj h)
        refine ⟨⟨rfl, .inl ⟨c, cs.takeWhile isNameChar, by simp [ofAtom], hc, fun d hd => ?_⟩⟩,
          fun _ => ?_⟩
        · exact List.mem_takeWhile_imp hd
        · cases hr : cs.dropWhile isNameChar with
          | nil => decide
          | cons d ds =>
            have := List.head?_dropWhile_not isNameChar cs
            simpa [hr] using this
      · split at h
        · next hc =>
          obtain ⟨rfl, rfl⟩ := Prod.mk.inj (Option.some.inj h)
          have hb : IsBit (ofAtom (String.ofList [c])).text := by
            rcases hc with rfl | rfl
            · exact .inl rfl
            · exact .inr rfl
          exact ⟨⟨rfl, .inr hb⟩, fun hn => absurd hn (not_isName_of_isBit hb)⟩
        · cases h
  · obtain ⟨k, s⟩ := t
    rintro ⟨rfl, ⟨ha, hs⟩, he⟩
    obtain rfl : k = .atom := ha
    rcases hs with hn | hb
    · obtain ⟨c, ds, hcs, hc, hd⟩ := hn
      obtain ⟨ht, hr⟩ := takeWhile_isNameChar (he ⟨c, ds, hcs, hc, hd⟩)
      obtain rfl : s = String.ofList (c :: ds) := by rw [← hcs, String.ofList_toList]
      rw [hcs, List.cons_append, atom?, if_pos hc, List.takeWhile_append_of_pos hd,
        List.dropWhile_append_of_pos hd, ht, hr, List.append_nil]
      rfl
    · rcases hb with rfl | rfl <;> rfl

/-- The token at the start of a text is the symbol that ends there, and no other. -/
theorem atStart?_eq_some_iff : atStart? cs = some (t, rest) ↔
    cs = t.text.toList ++ rest ∧ t.IsSymbol ∧ t.EndsAt rest := by
  constructor
  · intro h
    rw [atStart?] at h
    split at h
    · next found hr =>
      obtain ⟨hcs, hm⟩ := eq_append_of_reserved? (hr.trans h)
      exact ⟨hcs, .inl hm, fun hn => absurd hn (not_isName_of_mem_reserved hm)⟩
    · obtain ⟨hcs, ha, he⟩ := atom?_eq_some_iff.mp h
      exact ⟨hcs, .inr ha, he⟩
  · rintro ⟨rfl, hm | ha, he⟩
    · rw [atStart?, reserved?_append hm]
    · have hr : reserved? (t.text.toList ++ rest) = none := by
        rcases ha.2 with ⟨c, ds, hcs, hc, -⟩ | hb
        · rw [hcs, List.cons_append]
          exact reserved?_cons_of_atom (.inl hc)
        · rcases hb with hb | hb <;> rw [hb] <;> rfl
      rw [atStart?, hr]
      exact atom?_eq_some_iff.mpr ⟨rfl, ha, he⟩

/-- There is no token at the start of a text exactly if the text begins with no symbol. -/
theorem atStart?_eq_none_iff :
    atStart? cs = none ↔ ∀ t : Token, t.IsSymbol → ¬ t.text.toList <+: cs := by
  constructor
  · rintro h t (hr | ⟨-, ⟨c, ds, ht, hc, -⟩ | hb⟩) ⟨rest, rfl⟩
    · rw [atStart?, reserved?_append hr] at h
      cases h
    · rw [ht, List.cons_append, atStart?, reserved?_cons_of_atom (.inl hc), atom?, if_pos hc] at h
      cases h
    · rcases hb with hb | hb <;> rw [hb] at h <;> cases h
  · intro h
    rw [Option.eq_none_iff_forall_ne_some]
    rintro ⟨t, rest⟩ hs
    obtain ⟨hcs, ht, -⟩ := atStart?_eq_some_iff.mp hs
    exact h t ht ⟨rest, hcs.symm⟩

theorem atStart?_blank (hb : Text.isBlank c = true) : atStart? (c :: cs) = none := by
  rw [Option.eq_none_iff_forall_ne_some]
  rintro ⟨t, rest⟩ h
  obtain ⟨hcs, hs, -⟩ := atStart?_eq_some_iff.mp h
  obtain ⟨hne, hb'⟩ := hs.text
  cases ht : t.text.toList with
  | nil => exact hne ht
  | cons d ds =>
    rw [ht] at hcs hb'
    obtain rfl := (List.cons.inj hcs).1
    rw [(hb' c (List.mem_cons_self ..)).2] at hb
    cases hb

/-! ### Cutting a text as it stands -/

theorem sequence_token {n : Nat} (h : atStart? cs = some (t, rest)) : Piece.sequence n cs =
    ⟨n, .token t⟩ :: Piece.sequence (n + t.text.length) rest := by
  rw [Piece.sequence]
  split
  · next h' =>
    obtain ⟨rfl, rfl⟩ := Prod.mk.inj (Option.some.inj (h.symm.trans h'))
    rfl
  · next h' =>
    rw [h] at h'
    cases h'

theorem sequence_blank {n : Nat} (hb : Text.isBlank c = true) :
    Piece.sequence n (c :: cs) = Piece.sequence (n + 1) cs := by
  rw [Piece.sequence]
  split
  · next h => rw [atStart?_blank hb] at h; cases h
  · exact if_pos hb

theorem sequence_stray {n : Nat} (h : atStart? (c :: cs) = none) (hb : Text.isBlank c = false) :
    Piece.sequence n (c :: cs) = ⟨n, .stray c⟩ :: Piece.sequence (n + 1) cs := by
  rw [Piece.sequence]
  split
  · next h' => rw [h] at h'; cases h'
  · exact if_neg (by rw [hb]; decide)

theorem lexemes_of_cut (h : Cut cs ts) :
    ∀ n, (Piece.sequence n cs).map Piece.lexeme = ts.map .token := by
  induction h with
  | nil =>
    intro n
    rw [Piece.sequence]
    rfl
  | blank hb _ ih =>
    intro n
    rw [sequence_blank hb, ih]
  | token ht he _ ih =>
    intro n
    rw [sequence_token (atStart?_eq_some_iff.mpr ⟨rfl, ht, he⟩), List.map_cons, List.map_cons, ih]

theorem cut_of_lexemes {n : Nat} (h : (Piece.sequence n cs).map Piece.lexeme = ts.map .token) :
    Cut cs ts := by
  fun_induction Piece.sequence n cs generalizing ts with
  | case1 n cs t rest hs ih =>
    obtain ⟨hcs, ht, he⟩ := atStart?_eq_some_iff.mp hs
    cases ts with
    | nil => cases h
    | cons u ts =>
      obtain ⟨hu, hts⟩ := List.cons.inj h
      obtain rfl : t = u := Lexeme.token.inj hu
      exact hcs ▸ .token ht he (ih hts)
  | case2 =>
    obtain rfl := List.map_eq_nil_iff.mp h.symm
    exact .nil
  | case3 n c rest hs hb ih => exact .blank hb (ih h)
  | case4 n c rest hs hb ih => cases ts <;> cases h

/-- The check meets the tokens of which the text is made, and nothing else. -/
theorem lexemes_eq_iff_cut {n : Nat} :
    (Piece.sequence n cs).map Piece.lexeme = ts.map .token ↔ Cut cs ts :=
  ⟨cut_of_lexemes, fun h => lexemes_of_cut h n⟩

theorem Cut.unique (h : Cut cs ts) (h' : Cut cs us) : ts = us := by
  have hinj : Function.Injective Lexeme.token := fun _ _ he => Lexeme.token.inj he
  exact hinj.list_map ((lexemes_of_cut h 0).symm.trans (lexemes_of_cut h' 0))

theorem atIndex?_natCast (text : String) (n : Nat) :
    atIndex? text n = (atStart? (text.toList.drop n)).map (·.1) := by
  have hn : ¬ (n : Int) < 0 := by omega
  simp only [atIndex?, if_neg hn, Int.toNat_natCast, atStart?]
  cases reserved? (text.toList.drop n) <;> rfl

theorem splits_nil_iff : Splits cs [] ↔ cs = [] := by
  constructor
  · rintro ⟨⟩
    rfl
  · rintro rfl
    exact .nil

theorem splits_cons_iff : Splits cs (t :: ts) ↔
    ∃ rest, atStart? cs = some (t, rest) ∧ Splits rest ts := by
  constructor
  · rintro ⟨⟩
    next rest ht h => exact ⟨rest, ht, h⟩
  · rintro ⟨rest, ht, h⟩
    exact .cons ht h

/-- Found by their indices or each at the start of what is left, the tokens of a text are the
same. -/
theorem splitsFrom_iff_splits {text : String} {n : Nat} (hn : n ≤ text.length) :
    SplitsFrom text n ts ↔ Splits (text.toList.drop n) ts := by
  induction ts generalizing n with
  | nil =>
    rw [SplitsFrom, splits_nil_iff, List.drop_eq_nil_iff, String.length_toList]
    omega
  | cons t ts ih =>
    have next : ∀ u rest, atStart? (text.toList.drop n) = some (u, rest) →
        rest = text.toList.drop (n + u.text.length) ∧ n + u.text.length ≤ text.length := by
      intro u rest h
      obtain ⟨hcs, -, -⟩ := atStart?_eq_some_iff.mp h
      have hlen := congrArg List.length hcs
      rw [List.length_drop, List.length_append, String.length_toList, String.length_toList] at hlen
      refine ⟨?_, by omega⟩
      rw [← List.drop_drop, hcs, ← String.length_toList, List.drop_left]
    rw [SplitsFrom, splits_cons_iff, atIndex?_natCast]
    constructor
    · rintro ⟨hi, hs⟩
      obtain ⟨⟨u, rest⟩, hat, hu⟩ := Option.map_eq_some_iff.mp hi
      obtain rfl : u = t := hu
      obtain ⟨hrest, hle⟩ := next u rest hat
      exact ⟨rest, hat, hrest ▸ (ih hle).mp hs⟩
    · rintro ⟨rest, hat, hs⟩
      obtain ⟨rfl, hle⟩ := next t rest hat
      exact ⟨by rw [hat]; rfl, (ih hle).mpr hs⟩

theorem Splits.cut (h : Splits cs ts) : Cut cs ts := by
  induction h with
  | nil => exact .nil
  | cons ht _ ih =>
    obtain ⟨rfl, hs, he⟩ := atStart?_eq_some_iff.mp ht
    exact .token hs he ih

theorem Cut.isSymbol (h : Cut cs ts) : ∀ t ∈ ts, t.IsSymbol := by
  induction h with
  | nil => exact fun _ h => absurd h List.not_mem_nil
  | blank _ _ ih => exact ih
  | token ht _ _ ih =>
    intro u hu
    rcases List.mem_cons.mp hu with rfl | hu
    · exact ht
    · exact ih u hu

/-! ### Cutting the normal form -/

theorem upper_eq_map (h : ∀ c ∈ cs, c.toNat < 128) : Text.upper cs = cs.map Char.toUpper := by
  induction cs with
  | nil => rfl
  | cons c cs ih =>
    rw [Text.upper_cons, Text.upperChar_of_lt (h c (List.mem_cons_self ..)),
      ih fun d hd => h d (List.mem_cons_of_mem _ hd)]
    rfl

theorem upper_append (cs ds : List Char) :
    Text.upper (cs ++ ds) = Text.upper cs ++ Text.upper ds := by
  simp [Text.upper]

theorem toList_upper (h : t.IsSymbol) : t.upper.text.toList = t.text.toList.map Char.toUpper := by
  rw [upper, String.toList_ofList, upper_eq_map fun c hc => (h.text.2 c hc).1]

theorem isName_of_isUpperName (h : IsUpperName s) : IsName s := by
  obtain ⟨c, cs, hs, hc, hcs⟩ := h
  refine ⟨c, cs, hs, ?_, fun d hd => (isNameChar_of_upper (hcs d hd)).1⟩
  simp only [isNameStart, Char.isAlpha, Bool.or_eq_true, beq_iff_eq]
  tauto

theorem isUpperName_upper (ha : t.category = .atom) (h : IsName t.text) :
    IsUpperName t.upper.text := by
  have hs := toList_upper (.inr ⟨ha, .inl h⟩)
  obtain ⟨c, cs, ht, hc, hcs⟩ := h
  rw [ht] at hs
  have hn := isNameChar_of_isNameStart hc
  refine ⟨c.toUpper, cs.map Char.toUpper, hs, (ascii_of_isNameChar hn).2.2 hc, fun d hd => ?_⟩
  obtain ⟨e, he, rfl⟩ := List.mem_map.mp hd
  exact (ascii_of_isNameChar (hcs e he)).2.1

theorem upper_atom (ha : t.category = .atom) (h : t.IsSymbol) :
    IsUpperName t.upper.text ∨ IsBit t.upper.text := by
  rcases h with h | ⟨-, hn | hb⟩
  · have hr : ∀ t ∈ reserved, t.category ≠ .atom := by decide
    exact absurd ha (hr t h)
  · exact .inl (isUpperName_upper ha hn)
  · refine .inr (hb.imp (fun h0 => ?_) fun h1 => ?_)
    · rw [upper, h0]
      rfl
    · rw [upper, h1]
      rfl

theorem upper_of_mem_reserved (h : t ∈ reserved) : t.upper = t := by
  revert t
  decide

theorem upper_of_isUpperName (ha : t.category = .atom) (h : IsUpperName t.text ∨ IsBit t.text) :
    t.upper = t := by
  obtain ⟨k, s⟩ := t
  obtain rfl : k = .atom := ha
  rcases h with h | rfl | rfl
  · have hs : (⟨.atom, s⟩ : Token).IsSymbol := .inr ⟨rfl, .inl (isName_of_isUpperName h)⟩
    obtain ⟨c, cs, hcs, hc, hd⟩ := h
    have hu : s.toList.map Char.toUpper = s.toList := by
      rw [hcs]
      refine List.map_congr_left (fun e he => ?_) |>.trans (List.map_id _)
      rcases List.mem_cons.mp he with rfl | he
      · exact (isNameChar_of_upper (hc.imp_right .inr)).2
      · exact (isNameChar_of_upper (hd e he)).2
    rw [upper, upper_eq_map fun c hc => (hs.text.2 c hc).1, hu, String.ofList_toList]
  · decide
  · decide

theorem IsSymbol.upper (h : t.IsSymbol) : t.upper.IsSymbol := by
  rcases h with hr | ha
  · rw [upper_of_mem_reserved hr]
    exact .inl hr
  · refine .inr ⟨ha.1, ?_⟩
    exact (upper_atom ha.1 (.inr ha)).imp_left isName_of_isUpperName

theorem upper_upper (h : t.IsSymbol) : t.upper.upper = t.upper := by
  rcases h with hr | ha
  · rw [upper_of_mem_reserved hr, upper_of_mem_reserved hr]
  · exact upper_of_isUpperName ha.1 (upper_atom ha.1 (.inr ha))

/-- The normal form of a text is that of its tokens, one after the other. -/
theorem normalForm_of_cut (h : Cut cs ts) :
    normalForm cs = (ts.map upper).flatMap fun t => t.text.toList := by
  induction h with
  | nil => rfl
  | blank hb _ ih =>
    rw [← ih]
    simp [normalForm, hb]
  | @token t cs ts ht _ _ ih =>
    have hf : t.text.toList.filter (fun c => !Text.isBlank c) = t.text.toList := by
      rw [List.filter_eq_self]
      intro c hc
      simp [(ht.text.2 c hc).2]
    rw [List.map_cons, List.flatMap_cons, ← ih, normalForm, List.filter_append, hf, upper_append,
      normalForm, upper, String.toList_ofList]

theorem flatMap_headD (hs : ∀ t ∈ ts, t.IsSymbol) :
    ((ts.flatMap fun t => t.text.toList).headD ' ') = (ts.head?.map initial).getD ' ' := by
  cases ts with
  | nil => rfl
  | cons t ts =>
    obtain ⟨c, cs, ht⟩ := List.exists_cons_of_ne_nil (hs t (List.mem_cons_self ..)).text.1
    simp [initial, ht]

theorem splits_of_separated (hs : ∀ t ∈ ts, t.IsSymbol) (h : Separated ts) :
    Splits (ts.flatMap fun t => t.text.toList) ts := by
  induction ts with
  | nil => exact .nil
  | cons t ts ih =>
    have hs' : ∀ u ∈ ts, u.IsSymbol := fun u hu => hs u (List.mem_cons_of_mem _ hu)
    refine .cons ?_ (ih hs' h.tail)
    rw [List.flatMap_cons, atStart?_eq_some_iff]
    refine ⟨rfl, hs t (List.mem_cons_self ..), fun hn => ?_⟩
    rw [flatMap_headD hs']
    cases ts with
    | nil => decide
    | cons u ts => exact (List.isChain_cons_cons.mp h).1 hn

theorem sequence_of_splits (h : Splits cs ts) : sequence cs = ts := by
  induction h with
  | nil =>
    rw [sequence]
    rfl
  | cons ht _ ih =>
    rw [sequence]
    split
    · next h =>
      obtain ⟨rfl, rfl⟩ := Prod.mk.inj (Option.some.inj (h.symm.trans ht))
      rw [ih]
    · next h =>
      rw [ht] at h
      cases h

theorem separated_upper (hs : ∀ t ∈ ts, t.IsSymbol) (h : Separated ts) :
    Separated (ts.map upper) := by
  refine (List.isChain_map upper).mpr (h.imp_of_mem_imp fun t u ht hu htu hn => ?_)
  have ht : IsName t.text := by
    rcases hs t ht with hr | ⟨ha, hn' | hb⟩
    · rw [upper_of_mem_reserved hr] at hn
      exact absurd hn (not_isName_of_mem_reserved hr)
    · exact hn'
    · rw [upper_of_isUpperName ha (.inr hb)] at hn
      exact hn
  obtain ⟨c, cs, hc⟩ := List.exists_cons_of_ne_nil (hs u hu).text.1
  have hi := htu ht
  rw [initial, hc] at hi
  rw [initial, toList_upper (hs u hu), hc]
  exact isNameChar_toUpper hi ((hs u hu).text.2 c (by rw [hc]; exact List.mem_cons_self ..)).1

/-- Where each token may follow the one before it, no name runs on. -/
theorem separated_of_isChain (hs : ∀ t ∈ ts, t.IsSymbol)
    (h : ts.IsChain fun t u => u.category ∈ Category.mayFollow (some t.category)) :
    Separated ts := by
  refine h.imp_of_mem_imp fun t u ht hu htu hn => ?_
  have ht : t.category = .atom := by
    rcases hs t ht with hr | ha
    · exact absurd hn (not_isName_of_mem_reserved hr)
    · exact ha.1
  rcases hs u hu with hr | ha
  · have hi : ∀ u ∈ reserved, isNameChar u.initial = false := by decide
    exact hi u hr
  · rw [ht, ha.1] at htu
    exact absurd htu (by decide)

/-- A name found in a text is as long as it goes. -/
theorem separated_of_splits (h : Splits cs ts) : Separated ts := by
  induction h with
  | nil => exact .nil
  | @cons t cs rest ts ht hr ih =>
    cases hr with
    | nil => exact .singleton _
    | @cons u _ rest' ts hu hr' =>
      refine .cons_cons (fun hn => ?_) ih
      obtain ⟨-, -, he⟩ := atStart?_eq_some_iff.mp ht
      obtain ⟨rfl, hs, -⟩ := atStart?_eq_some_iff.mp hu
      obtain ⟨c, cs, hc⟩ := List.exists_cons_of_ne_nil hs.text.1
      have := he hn
      rw [hc] at this
      rw [initial, hc]
      exact this

/-- The normal form of a text falls into the tokens of which the text is made, in upper case, if no
name runs on. -/
theorem splits_normalForm (h : Cut cs ts) (hs : Separated ts) :
    Splits (normalForm cs) (ts.map upper) := by
  have hu : ∀ t ∈ ts.map upper, t.IsSymbol := by
    intro u hu
    obtain ⟨t, ht, rfl⟩ := List.mem_map.mp hu
    exact (h.isSymbol t ht).upper
  rw [normalForm_of_cut h]
  exact splits_of_separated hu (separated_upper h.isSymbol hs)

/-- The tokens of a text are those of which it is made, in upper case, if no name runs on. -/
theorem ofText_of_cut {text : String} (h : Cut text.toList ts) (hs : Separated ts) :
    ofText text = ts.map upper :=
  sequence_of_splits (splits_normalForm h hs)

end Token
end Sentential
