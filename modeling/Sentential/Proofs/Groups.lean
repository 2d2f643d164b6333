/-
# Groups and the tokens that spell them

A list of items is spelled by a list of tokens when every group stands between a pair of
parentheses. Gathering the items of a token list undoes this: it finds items exactly for the lists
that spell some, and those items. While the list is read, the groups that are still open cut what
has been read into pieces, each behind its opening parenthesis; the stack spells these pieces.

Key definitions: `Item.Spelled`, `Item.Pending`.
Key theorems: `Item.gather_of_spelled`, `Item.spelled_of_gather`, `Item.groups_eq_ok_iff`.
-/
import Sentential.Formula.Build

namespace Sentential

/-- The token is a parenthesis. -/
def Category.IsParenthesis (k : Category) : Prop := k = .opening ∨ k = .closing

namespace Item

/-- The tokens spell the items. -/
inductive Spelled : List Item → List Token → Prop
  | nil : Spelled [] []
  | token {t : Token} {items : List Item} {ts : List Token}
      (ht : ¬ t.category.IsParenthesis) (h : Spelled items ts) : Spelled (token t :: items) (t :: ts)
  | group {o c : Token} {inner items : List Item} {us ts : List Token}
      (ho : o.category = .opening) (hi : Spelled inner us) (hc : c.category = .closing)
      (h : Spelled items ts) : Spelled (group inner :: items) (o :: us ++ c :: ts)

variable {inner items : List Item} {outer : List (List Item)} {ts us : List Token} {t : Token}

theorem gather_opening (ht : t.category = .opening) :
    gather outer inner (t :: ts) = gather (inner :: outer) [] ts := by
  rw [gather.eq_def]
  simp only [ht]

theorem gather_closing {around : List Item} (ht : t.category = .closing) :
    gather (around :: outer) inner (t :: ts) =
      gather outer (Item.group inner.reverse :: around) ts := by
  rw [gather, ht]

theorem gather_token (ht : ¬ t.category.IsParenthesis) :
    gather outer inner (t :: ts) = gather outer (Item.token t :: inner) ts := by
  rw [gather.eq_def]
  simp only
  split
  · next h => exact absurd (Or.inl h) ht
  · next h => exact absurd (Or.inr h) ht
  · rfl

/-- Tokens that spell items put these on the innermost group. -/
theorem gather_of_spelled (h : Spelled items ts) : ∀ (outer : List (List Item)) (inner : List Item)
    (us : List Token), gather outer inner (ts ++ us) = gather outer (items.reverse ++ inner) us := by
  induction h with
  | nil => simp
  | token ht _ ih =>
    intro outer inner us
    rw [List.cons_append, gather_token ht, ih]
    simp
  | group ho _ hc _ ihi ih =>
    intro outer inner us
    rw [List.append_assoc, List.cons_append, List.cons_append, gather_opening ho, ihi,
      List.append_nil, gather_closing hc, List.reverse_reverse, ih]
    simp

/-- The tokens read so far spell the groups that are still open and the innermost one, which are
kept in reverse order. -/
def Pending : (outer : List (List Item)) → (inner : List Item) → List Token → Prop
  | [], inner, ts => Spelled inner.reverse ts
  | around :: outer, inner, ts => ∃ (before : List Token) (o : Token) (after : List Token),
      ts = before ++ o :: after ∧ o.category = .opening ∧ Pending outer around before ∧
        Spelled inner.reverse after

theorem Spelled.append (h : Spelled items ts) (h' : Spelled inner us) :
    Spelled (items ++ inner) (ts ++ us) := by
  induction h with
  | nil => exact h'
  | token ht _ ih => exact .token ht ih
  | group ho hi hc _ _ ih =>
    rw [List.append_assoc]
    exact .group ho hi hc ih

/-- What is spelled in one piece goes onto the innermost group. -/
theorem Pending.append (h : Pending outer inner ts) (h' : Spelled items us) :
    Pending outer (items.reverse ++ inner) (ts ++ us) := by
  have hs : ∀ {vs : List Token}, Spelled inner.reverse vs →
      Spelled (items.reverse ++ inner).reverse (vs ++ us) := by
    intro vs hv
    rw [List.reverse_append, List.reverse_reverse]
    exact hv.append h'
  cases outer with
  | nil => exact hs h
  | cons around outer =>
    obtain ⟨before, o, after, rfl, ho, hp, ha⟩ := h
    exact ⟨before, o, after ++ us, by simp, ho, hp, hs ha⟩

/-- Items that are gathered are spelled by what was read before and what is read now. -/
theorem spelled_of_gather (hg : gather outer inner ts = .ok items) (hp : Pending outer inner us) :
    Spelled items (us ++ ts) := by
  induction ts generalizing outer inner us with
  | nil =>
    cases outer with
    | nil =>
      obtain rfl := Except.ok.inj hg
      rw [List.append_nil]
      exact hp
    | cons around outer => simp [gather] at hg
  | cons t ts ih =>
    rw [← List.singleton_append, ← List.append_assoc]
    by_cases ho : t.category = .opening
    · rw [gather_opening ho] at hg
      exact ih hg ⟨us, t, [], rfl, ho, hp, .nil⟩
    by_cases hc : t.category = .closing
    · cases outer with
      | nil => simp [gather, hc] at hg
      | cons around outer =>
        rw [gather_closing hc] at hg
        obtain ⟨before, o, after, rfl, ho, hp, ha⟩ := hp
        refine ih hg ?_
        have := hp.append (.group ho ha hc .nil)
        simpa using this
    · have ht : ¬ t.category.IsParenthesis := by
        rintro (h | h)
        · exact ho h
        · exact hc h
      rw [gather_token ht] at hg
      exact ih hg (hp.append (.token ht .nil))

/-- A token list has the items that it spells, and no others. -/
theorem groups_eq_ok_iff : groups ts = .ok items ↔ Spelled items ts := by
  constructor
  · intro h
    have hp : Pending [] [] [] := Spelled.nil
    exact spelled_of_gather h hp
  · intro h
    have := gather_of_spelled h [] [] []
    simpa [groups, gather] using this

end Item
end Sentential
