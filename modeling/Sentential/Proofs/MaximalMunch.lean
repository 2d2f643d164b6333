/-
# How any text is cut into tokens

The reader cuts every text, whether it makes a formula or not. What it cuts is the normal form, from
left to right and without leaving anything out: at each place it takes the longest symbol that
begins there, or else a single character. That it takes the longest is clear of names, which go on
as far as they can. The reserved symbols are tried in a fixed order, the biconditional before the
conditional; since no symbol ends in the first character of a biconditional, the reader always
stands before the whole of one, and never meets the conditional in it.

Key definitions: `Token.Segments`, `Token.IsCutAt`.
Key theorems: `Token.segments_sequence`, `Token.Segments.flatMap_text`, `Token.Segments.of_append`,
`Token.length_le_of_atStart?`, `Token.Segments.not_biconditional`, `Token.Segments.isCutAt`,
`Token.ofText_segmentation`.
-/
import Sentential.Proofs.Segmentation

namespace Sentential
namespace Token

/-- The text falls into the tokens from its start on: each is the symbol found where the one before
it ends, or a single character if none is found. -/
inductive Segments : List Char → List Token → Prop
  | nil : Segments [] []
  | token {t : Token} {cs rest : List Char} {ts : List Token} (ht : atStart? cs = some (t, rest))
      (h : Segments rest ts) : Segments cs (t :: ts)
  | stray {c : Char} {cs : List Char} {ts : List Token} (hc : atStart? (c :: cs) = none)
      (h : Segments cs ts) : Segments (c :: cs) (ofAtom (String.ofList [c]) :: ts)

/-- The token is cut out of the text at position `n`, where the tokens `after` follow: it is the
symbol found there, or a single character if none is found; no symbol that begins there is longer,
a name does not run on into the next token, and the token does not begin behind the first character
of a biconditional, so that no conditional is the tail of one. -/
structure IsCutAt (text : String) (n : Nat) (t : Token) (after : List Token) : Prop where
  nonempty : t.text ≠ ""
  found : atIndex? text n = some t ∨
    atIndex? text n = none ∧ ∃ c, text.toList[n]? = some c ∧ t = ofAtom (String.ofList [c])
  longest : ∀ u : Token, u.IsSymbol → u.text.toList <+: text.toList.drop n →
    u.text.length ≤ t.text.length
  ended : IsName t.text → ∀ u, after.head? = some u → isNameChar u.initial = false
  whole : ∀ k, k + 1 = n → ¬ "<->".toList <+: text.toList.drop k

variable {t u : Token} {ts before after : List Token} {c : Char} {cs rest : List Char}

/-- The reader's tokens are those that the text falls into. -/
theorem segments_sequence (cs : List Char) : Segments cs (sequence cs) := by
  fun_induction sequence cs with
  | case1 cs t rest h ih => exact .token h ih
  | case2 => exact .nil
  | case3 c rest h ih => exact .stray h ih

namespace Segments

/-- Nothing is left out. -/
theorem flatMap_text (h : Segments cs ts) : ts.flatMap (fun t => t.text.toList) = cs := by
  induction h with
  | nil => rfl
  | token ht _ ih =>
    rw [List.flatMap_cons, ih]
    exact (eq_append_of_atStart? ht).1.symm
  | stray _ _ ih =>
    rw [List.flatMap_cons, ih, ofAtom, String.toList_ofList]
    rfl

theorem ne_empty (h : Segments cs (t :: ts)) : t.text ≠ "" := by
  cases h with
  | token ht => exact (eq_append_of_atStart? ht).2
  | stray => simp [ofAtom]

/-- Behind the texts of the first tokens, the others go on. -/
theorem of_append (h : Segments cs (before ++ after)) :
    ∃ rest, cs = before.flatMap (fun t => t.text.toList) ++ rest ∧ Segments rest after := by
  induction before generalizing cs with
  | nil => exact ⟨cs, rfl, h⟩
  | cons t before ih =>
    cases h with
    | token ht h =>
      obtain ⟨rest, rfl, hr⟩ := ih h
      refine ⟨rest, ?_, hr⟩
      rw [List.flatMap_cons, List.append_assoc]
      exact (eq_append_of_atStart? ht).1
    | stray hc h =>
      obtain ⟨rest, rfl, hr⟩ := ih h
      refine ⟨rest, ?_, hr⟩
      rw [List.flatMap_cons, ofAtom, String.toList_ofList]
      rfl

theorem length_le (h : Segments cs ts) : ts.length ≤ cs.length := by
  induction h with
  | nil => exact Nat.le_refl 0
  | token ht _ ih =>
    have := length_lt_of_atStart? ht
    rw [List.length_cons]
    omega
  | stray _ _ ih =>
    rw [List.length_cons, List.length_cons]
    omega

end Segments

/-- No symbol at the start of a text is longer than the one that is found. -/
theorem length_le_of_atStart? (h : atStart? cs = some (t, rest)) (hu : u.IsSymbol)
    (hp : u.text.toList <+: cs) : u.text.length ≤ t.text.length := by
  obtain ⟨r, rfl⟩ := hp
  rcases hu with hr | ⟨-, ⟨c, ds, hcs, hc, hds⟩ | hb⟩
  · rw [atStart?, reserved?_append hr] at h
    obtain ⟨rfl, -⟩ := Prod.mk.inj (Option.some.inj h)
    exact Nat.le_refl _
  · rw [hcs, List.cons_append, atStart?, reserved?_cons_of_atom (.inl hc)] at h
    simp only [atom?, if_pos hc] at h
    obtain ⟨rfl, -⟩ := Prod.mk.inj (Option.some.inj h)
    rw [← String.length_toList, hcs, ofAtom, ← String.length_toList, String.toList_ofList,
      List.takeWhile_append_of_pos hds, List.length_cons, List.length_cons, List.length_append]
    omega
  · have hne : t.text.toList ≠ [] := fun hnil =>
      (eq_append_of_atStart? h).2 (String.toList_eq_nil_iff.1 hnil)
    have hpos := List.length_pos_iff.2 hne
    rw [String.length_toList] at hpos
    rcases hb with hb | hb <;> rw [hb] <;> exact hpos

/-- No symbol ends in the first character of a biconditional. -/
theorem IsSymbol.getLast?_ne (h : t.IsSymbol) : t.text.toList.getLast? ≠ some '<' := by
  have hreserved : ∀ t ∈ reserved, t.text.toList.getLast? ≠ some '<' := by decide
  rcases h with hr | ⟨-, ⟨c, cs, ht, hc, hcs⟩ | hb⟩
  · exact hreserved t hr
  · intro hlast
    have hmem := List.mem_of_getLast? hlast
    rw [ht] at hmem
    rcases List.mem_cons.mp hmem with rfl | hmem
    · exact absurd hc (by decide)
    · exact absurd (hcs _ hmem) (by decide)
  · rcases hb with hb | hb <;> rw [hb] <;> decide

namespace Segments

/-- Behind the first character of a biconditional no token begins: the one before would have to end
with it, but no symbol does, and alone it is taken only where no biconditional stands. -/
theorem not_biconditional (h : Segments cs (before ++ after)) {k : Nat}
    (hk : k + 1 = (before.flatMap fun t => t.text.toList).length) :
    ¬ "<->".toList <+: cs.drop k := by
  intro hp
  rcases List.eq_nil_or_concat before with rfl | ⟨init, u, rfl⟩
  · cases hk
  rw [List.concat_eq_append, List.append_assoc] at h
  rw [List.concat_eq_append, List.flatMap_append, List.flatMap_singleton, List.length_append] at hk
  obtain ⟨rest, rfl, hr⟩ := h.of_append
  -- the text from position `k` on is the last character of `u`, and what follows `u`
  cases hr with
  | @token _ _ rest _ hu _ =>
    obtain ⟨rfl, hs, -⟩ := atStart?_eq_some_iff.mp hu
    obtain ⟨ds, d, hds⟩ := (List.eq_nil_or_concat' u.text.toList).resolve_left hs.text.1
    rw [hds, List.length_append, List.length_singleton] at hk
    rw [hds, List.append_assoc, ← List.append_assoc,
      List.drop_left' (by rw [List.length_append]; omega)] at hp
    have hd : '<' = d := (List.cons_prefix_cons.mp hp).1
    exact hs.getLast?_ne (by rw [hds, List.getLast?_concat, hd])
  | @stray c cs _ hc _ =>
    rw [ofAtom, String.toList_ofList, List.length_singleton] at hk
    rw [List.drop_left' (by omega)] at hp
    exact atStart?_eq_none_iff.mp hc (.ofConnective .xnor) (.inl (by decide)) hp

theorem isNameChar_initial (h : Segments cs (t :: u :: ts)) (hn : IsName t.text) :
    isNameChar u.initial = false := by
  cases h with
  | @token _ _ rest _ ht h =>
    have he := (atStart?_eq_some_iff.mp ht).2.2 hn
    have hu : u.text.toList ≠ [] := fun hnil => h.ne_empty (String.toList_eq_nil_iff.1 hnil)
    obtain ⟨c, ds, hcs⟩ := List.exists_cons_of_ne_nil hu
    rw [← h.flatMap_text, List.flatMap_cons, hcs] at he
    rwa [initial, hcs]
  | @stray c _ _ hc _ =>
    obtain ⟨d, ds, hds, hd, -⟩ := hn
    obtain ⟨rfl, -⟩ := List.cons.inj ((String.toList_ofList (l := [c])).symm.trans hds)
    rw [atStart?, reserved?_cons_of_atom (.inl hd)] at hc
    simp [atom?, hd] at hc

/-- What is cut out at a place is what is found there. -/
theorem isCutAt {text : String} (h : Segments text.toList (before ++ t :: after)) :
    IsCutAt text (before.map fun t => t.text.length).sum t after := by
  obtain ⟨rest, hcs, hr⟩ := h.of_append
  have hlen : (before.flatMap fun t => t.text.toList).length =
      (before.map fun t => t.text.length).sum := by
    rw [List.length_flatMap]
    simp only [String.length_toList]
  have hdrop : text.toList.drop (before.map fun t => t.text.length).sum = rest := by
    rw [hcs, ← hlen, List.drop_left]
  refine ⟨hr.ne_empty, ?_, fun u hu hp => ?_, fun hn u hu => ?_, fun k hk hp => ?_⟩
  · rw [atIndex?_natCast, hdrop]
    cases hr with
    | token ht =>
      rw [ht]
      exact .inl rfl
    | @stray c _ _ hc _ =>
      refine .inr ⟨by rw [hc]; rfl, c, ?_, rfl⟩
      rw [← Nat.add_zero (List.sum _), ← List.getElem?_drop, hdrop]
      rfl
  · rw [hdrop] at hp
    cases hr with
    | token ht => exact length_le_of_atStart? ht hu hp
    | stray hc => exact absurd hp (atStart?_eq_none_iff.mp hc u hu)
  · obtain ⟨after, rfl⟩ := List.head?_eq_some_iff.mp hu
    exact hr.isNameChar_initial hn
  · exact h.not_biconditional (hk.trans hlen.symm) hp

end Segments

/-- **Any text is cut into tokens without loss, each as long as it can be.** The texts of the tokens
in their order are the normal form of the text; each token takes at least one character of it and
is cut out where those before it end. -/
theorem ofText_segmentation (text : String) :
    String.join ((ofText text).map (·.text)) = normalText text ∧
      (ofText text).length ≤ (normalText text).length ∧
      ∀ before t after, ofText text = before ++ t :: after →
        IsCutAt (normalText text) (before.map (·.text.length)).sum t after := by
  have h : Segments (normalText text).toList (ofText text) := by
    rw [normalText, String.toList_ofList]
    exact segments_sequence (normalForm text.toList)
  refine ⟨String.toList_inj.mp ?_, ?_, fun before t after hts => ?_⟩
  · rw [String.toList_join, List.flatMap_map, h.flatMap_text]
  · rw [← String.length_toList]
    exact h.length_le
  · rw [hts] at h
    exact h.isCutAt

/-- A letter that is two in upper case, a biconditional behind a stray character, and a name right
behind a literal. -/
theorem ofText_segmentation_stray : normalText "p1ß <<->@ 1q" = "P1SS<<->@1Q" ∧
    ofText "p1ß <<->@ 1q" = [ofAtom "P1SS", ofAtom "<", ofConnective .xnor, ofAtom "@", ofAtom "1",
      ofAtom "Q"] ∧
    IsCutAt "P1SS<<->@1Q" 5 (ofConnective .xnor) [ofAtom "@", ofAtom "1", ofAtom "Q"] := by
  have hn : normalText "p1ß <<->@ 1q" = "P1SS<<->@1Q" := by decide +kernel
  have hts : ofText "p1ß <<->@ 1q" = [ofAtom "P1SS", ofAtom "<", ofConnective .xnor, ofAtom "@",
      ofAtom "1", ofAtom "Q"] := by decide +kernel
  have h := (ofText_segmentation "p1ß <<->@ 1q").2.2 [ofAtom "P1SS", ofAtom "<"] _ _ hts
  rw [hn] at h
  exact ⟨hn, hts, h⟩

end Token
end Sentential
