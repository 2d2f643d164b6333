/-
# Balanced parentheses

Items are found exactly for the token lists whose parentheses are balanced. Of the other lists, some
close a group that is not open, and the rest leave one open in the end. Only the height of the stack
enters into this, and it counts parentheses: no step changes by how much the groups that are open
and the parentheses that open one ahead exceed those that close one ahead (`Item.ends_gather`).

Writing the items out again gives the list back, up to the texts of its parentheses, which are not
kept: each is written with its usual text, and the tokens of a text have no other
(`Token.regular_of_mem_ofText`). And whatever items are written out, they are found again, if none
of their tokens is a parenthesis.

Key definitions: `Token.openings`, `Token.closings`, `Token.Overdraws`, `Token.Balanced`,
`Token.regular`, `Item.AllGrouped`, `Item.Ends`.
Key theorems: `Token.overdraws_cons`, `Token.regular_of_mem_ofText`, `Item.ends_gather`,
`Item.Ends.outcome_iff`, `Item.Spelled.flattenAll_eq`, `Item.spelled_flattenAll`,
`Item.groups_iff_balanced`.
-/
import Sentential.Proofs.Groups
import Sentential.Proofs.MaximalMunch

namespace Sentential
namespace Token

/-- The number of opening parentheses among the tokens. -/
def openings (ts : List Token) : Nat := ts.countP (·.category = .opening)

/-- The number of closing parentheses among the tokens. -/
def closings (ts : List Token) : Nat := ts.countP (·.category = .closing)

/-- With `depth` groups open before the tokens, the first of these close more than are open. -/
def Overdraws (depth : Nat) (ts : List Token) : Prop :=
  ∃ us, us <+: ts ∧ depth + openings us < closings us

/-- At no place have more groups been closed than opened, and in the end as many have been. -/
def Balanced (ts : List Token) : Prop :=
  (∀ us, us <+: ts → closings us ≤ openings us) ∧ closings ts = openings ts

/-- The token, with its usual text if it is a parenthesis. -/
def regular (t : Token) : Token :=
  match t.category with
  | .opening => opening
  | .closing => closing
  | _ => t

variable {t : Token} {ts us : List Token} {depth depth' : Nat}

/-! ### Parentheses among tokens -/

@[simp]
theorem openings_nil : openings [] = 0 := rfl

@[simp]
theorem closings_nil : closings [] = 0 := rfl

theorem openings_cons : openings (t :: ts) =
    openings ts + if t.category = .opening then 1 else 0 := by
  simp [openings, List.countP_cons]

theorem closings_cons : closings (t :: ts) =
    closings ts + if t.category = .closing then 1 else 0 := by
  simp [closings, List.countP_cons]

theorem openings_append : openings (ts ++ us) = openings ts + openings us := List.countP_append

theorem not_overdraws_nil : ¬ Overdraws depth [] := by
  rintro ⟨us, hus, h⟩
  rw [List.prefix_nil.mp hus] at h
  exact Nat.not_lt_zero _ h

/-- The first token changes the number of open groups from `depth` to `depth'`; behind it, these can
be overdrawn as before. -/
theorem overdraws_cons (h : depth + openings [t] = depth' + closings [t]) :
    Overdraws depth (t :: ts) ↔ Overdraws depth' ts := by
  simp only [openings_cons, closings_cons, openings_nil, closings_nil] at h
  have hstep : ∀ us, depth + openings (t :: us) < closings (t :: us) ↔
      depth' + openings us < closings us := by
    intro us
    rw [openings_cons, closings_cons]
    omega
  constructor
  · rintro ⟨us, hus, hlt⟩
    obtain rfl | ⟨vs, rfl, hvs⟩ := List.prefix_cons_iff.mp hus
    · exact absurd hlt (Nat.not_lt_zero _)
    · exact ⟨vs, hvs, (hstep vs).mp hlt⟩
  · rintro ⟨us, hus, hlt⟩
    exact ⟨t :: us, List.prefix_cons_iff.mpr (.inr ⟨us, rfl, hus⟩), (hstep us).mpr hlt⟩

theorem not_overdraws_zero_iff :
    ¬ Overdraws 0 ts ↔ ∀ us, us <+: ts → closings us ≤ openings us := by
  simp only [Overdraws, not_exists, not_and, Nat.not_lt, Nat.zero_add]

/-! ### The texts of parentheses -/

theorem regular_opening (h : t.category = .opening) : t.regular = opening := by
  rw [regular, h]

theorem regular_closing (h : t.category = .closing) : t.regular = closing := by
  rw [regular, h]

theorem regular_of_not_isParenthesis (h : ¬ t.category.IsParenthesis) : t.regular = t := by
  unfold regular
  split
  · next ho => exact absurd (.inl ho) h
  · next hc => exact absurd (.inr hc) h
  · rfl

/-- No token into which a text falls is a parenthesis with another text. -/
theorem Segments.regular_eq {cs : List Char} (h : Segments cs ts) : ∀ t ∈ ts, t.regular = t := by
  have hatom : ∀ {u : Token}, u.category = .atom → u.regular = u := fun hu =>
    regular_of_not_isParenthesis (by simp [hu, Category.IsParenthesis])
  have hsymbol : ∀ {u : Token}, u.IsSymbol → u.regular = u := by
    rintro u (hr | ⟨hu, -⟩)
    · exact (by decide : ∀ u ∈ reserved, u.regular = u) u hr
    · exact hatom hu
  induction h with
  | nil => exact fun _ ht => absurd ht List.not_mem_nil
  | token ht _ ih => exact List.forall_mem_cons.mpr ⟨hsymbol (atStart?_eq_some_iff.mp ht).2.1, ih⟩
  | stray _ _ ih => exact List.forall_mem_cons.mpr ⟨hatom rfl, ih⟩

theorem regular_of_mem_ofText {text : String} (h : t ∈ ofText text) : t.regular = t :=
  (segments_sequence (normalForm text.toList)).regular_eq t h

end Token

namespace Item

open Token

mutual
/-- No token in the item is a parenthesis: parentheses are there as groups only. -/
def IsGrouped : Item → Prop
  | token t => ¬ t.category.IsParenthesis
  | group items => AllGrouped items

/-- No token in the items is a parenthesis. -/
def AllGrouped : List Item → Prop
  | [] => True
  | item :: items => IsGrouped item ∧ AllGrouped items
end

/-- What the outcome of gathering says about the tokens, before which `depth` groups are open. -/
def Ends (depth : Nat) (ts : List Token) : Except GroupError (List Item) → Prop
  | .ok _ => ¬ Overdraws depth ts ∧ closings ts = depth + openings ts
  | .error .unopened => Overdraws depth ts
  | .error .unclosed => ¬ Overdraws depth ts ∧ closings ts < depth + openings ts

variable {items inner : List Item} {outer : List (List Item)} {ts : List Token} {t : Token}
  {depth depth' : Nat} {r : Except GroupError (List Item)}

/-! ### Gathering -/

theorem ends_cons (h : depth + openings [t] = depth' + closings [t]) :
    Ends depth (t :: ts) r ↔ Ends depth' ts r := by
  have hover : Overdraws depth (t :: ts) ↔ Overdraws depth' ts := overdraws_cons h
  simp only [openings_cons, closings_cons, openings_nil, closings_nil] at h
  match r with
  | .ok _ =>
    rw [Ends, Ends, hover, openings_cons, closings_cons]
    exact and_congr_right fun _ => by omega
  | .error .unopened => exact hover
  | .error .unclosed =>
    rw [Ends, Ends, hover, openings_cons, closings_cons]
    exact and_congr_right fun _ => by omega

/-- Each of the three ends excludes the others, so each is known by what it says of the tokens. -/
theorem Ends.outcome_iff (h : Ends depth ts r) :
    ((∃ items, r = .ok items) ↔ ¬ Overdraws depth ts ∧ closings ts = depth + openings ts) ∧
    (r = .error .unopened ↔ Overdraws depth ts) ∧
    (r = .error .unclosed ↔ ¬ Overdraws depth ts ∧ closings ts < depth + openings ts) := by
  match r, h with
  | .ok items, h =>
    exact ⟨iff_of_true ⟨items, rfl⟩ h, iff_of_false nofun h.1,
      iff_of_false nofun fun hlt => Nat.ne_of_lt hlt.2 h.2⟩
  | .error .unopened, h =>
    exact ⟨iff_of_false nofun fun hn => hn.1 h, iff_of_true rfl h,
      iff_of_false nofun fun hn => hn.1 h⟩
  | .error .unclosed, h =>
    exact ⟨iff_of_false nofun fun heq => Nat.ne_of_lt h.2 heq.2, iff_of_false nofun h.1,
      iff_of_true rfl h⟩

/-- How gathering ends is a matter of how many groups are open and of the parentheses ahead. -/
theorem ends_gather (outer : List (List Item)) (inner : List Item) (ts : List Token) :
    Ends outer.length ts (gather outer inner ts) := by
  -- each step keeps what the outcome says: a parenthesis moves from the tokens to the stack
  induction ts generalizing outer inner with
  | nil =>
    cases outer with
    | nil => exact ⟨not_overdraws_nil, rfl⟩
    | cons around outer => exact ⟨not_overdraws_nil, Nat.succ_pos _⟩
  | cons t ts ih =>
    by_cases ho : t.category = .opening
    · rw [gather_opening ho]
      exact (ends_cons (by simp [openings_cons, closings_cons, ho])).mpr (ih (inner :: outer) [])
    by_cases hc : t.category = .closing
    · cases outer with
      | nil =>
        have hfail : gather [] inner (t :: ts) = .error .unopened := by simp [gather, hc]
        rw [hfail]
        exact ⟨[t], by simp, by simp [openings_cons, closings_cons, hc]⟩
      | cons around outer =>
        rw [gather_closing hc]
        exact (ends_cons (by simp [openings_cons, closings_cons, hc])).mpr
          (ih outer (group inner.reverse :: around))
    · rw [gather_token (not_or.mpr ⟨ho, hc⟩)]
      exact (ends_cons (by simp [openings_cons, closings_cons, ho, hc])).mpr
        (ih outer (token t :: inner))

/-! ### Writing items out -/

/-- Of the tokens that spell items, the texts of the parentheses are lost, and nothing else. -/
theorem Spelled.flattenAll_eq (h : Spelled items ts) : flattenAll items = ts.map regular := by
  induction h with
  | nil => rfl
  | token ht _ ih =>
    rw [flattenAll, flatten, ih]
    simp [regular_of_not_isParenthesis ht]
  | group ho _ hc _ ihi ih =>
    rw [flattenAll, flatten, ihi, ih]
    simp [regular_opening ho, regular_closing hc]

theorem Spelled.allGrouped (h : Spelled items ts) : AllGrouped items := by
  induction h with
  | nil => trivial
  | token ht _ ih => exact ⟨ht, ih⟩
  | group _ _ _ _ ihi ih => exact ⟨ihi, ih⟩

theorem spelled_flattenAll : ∀ {items : List Item}, AllGrouped items →
    Spelled items (flattenAll items)
  | [], _ => .nil
  | token t :: items, h => .token h.1 (spelled_flattenAll h.2)
  | group inner :: items, h => by
    have hinner : Spelled inner (flattenAll inner) := spelled_flattenAll h.1
    have hitems : Spelled items (flattenAll items) := spelled_flattenAll h.2
    have hgroup : Spelled (group inner :: items)
        (opening :: flattenAll inner ++ closing :: flattenAll items) :=
      .group rfl hinner rfl hitems
    simpa [flattenAll, flatten] using hgroup

/-! ### Groups -/

/-- **Groups are found for balanced parentheses and undo the writing out.** The other lists fail for
one of two reasons: some of the first tokens close more groups than they open, or that is not so and
a group is left open in the end. The items found have no parenthesis among their tokens, and written
out they are the list, each parenthesis with its usual text; so they are the very list if its
parentheses have theirs. Conversely, all items without a parenthesis among their tokens are found
when they are written out. -/
theorem groups_iff_balanced (ts : List Token) :
    ((∃ items, groups ts = .ok items) ↔ Balanced ts) ∧
    (groups ts = .error .unopened ↔ ∃ us, us <+: ts ∧ openings us < closings us) ∧
    (groups ts = .error .unclosed ↔
      (∀ us, us <+: ts → closings us ≤ openings us) ∧ closings ts < openings ts) ∧
    (∀ items, groups ts = .ok items →
      AllGrouped items ∧ Spelled items ts ∧ flattenAll items = ts.map regular) ∧
    ((∀ t ∈ ts, t.regular = t) → ∀ items, groups ts = .ok items → flattenAll items = ts) ∧
    ∀ items, AllGrouped items → groups (flattenAll items) = .ok items := by
  have hends : Ends 0 ts (groups ts) := ends_gather [] [] ts
  obtain ⟨hok, hunopened, hunclosed⟩ := hends.outcome_iff
  rw [Nat.zero_add, not_overdraws_zero_iff] at hok hunclosed
  have hunopened' : groups ts = .error .unopened ↔
      ∃ us, us <+: ts ∧ openings us < closings us := by simpa [Overdraws] using hunopened
  refine ⟨hok, hunopened', hunclosed, fun items h => ?_, fun hts items h => ?_, fun items h => ?_⟩
  · have hs : Spelled items ts := groups_eq_ok_iff.mp h
    exact ⟨hs.allGrouped, hs, hs.flattenAll_eq⟩
  · rw [(groups_eq_ok_iff.mp h).flattenAll_eq, List.map_congr_left hts, List.map_id']
  · exact groups_eq_ok_iff.mpr (spelled_flattenAll h)

/-- A pair within a pair, and a list with as many parentheses of both kinds in the wrong order. -/
theorem groups_iff_balanced_nested_pair :
    let ts := Token.ofText "(a && (b))"
    let items := [group [token (.ofAtom "A"), token (.ofConnective .and), group [token (.ofAtom "B")]]]
    groups ts = .ok items ∧ Balanced ts ∧ flattenAll items = ts ∧
      AllGrouped items ∧ groups (flattenAll items) = .ok items ∧
      groups [.closing, .opening] = .error .unopened := by
  intro ts items
  have hts : ts = [.opening, .ofAtom "A", .ofConnective .and, .opening, .ofAtom "B", .closing,
      .closing] := by decide +kernel
  have hgroups : groups ts = .ok items := by
    rw [hts]
    rfl
  have hregular : ∀ t ∈ ts, t.regular = t := fun t ht => regular_of_mem_ofText ht
  obtain ⟨hbalanced, -, -, hitems, hwritten, hread⟩ := groups_iff_balanced ts
  have hgrouped : AllGrouped items := (hitems items hgroups).1
  have hoverdrawn := (groups_iff_balanced [.closing, .opening]).2.1
  exact ⟨hgroups, hbalanced.mp ⟨items, hgroups⟩, hwritten hregular items hgroups, hgrouped,
    hread items hgrouped, hoverdrawn.mpr ⟨[.closing], by decide, by decide⟩⟩

end Item
end Sentential
