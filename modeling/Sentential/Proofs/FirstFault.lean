/-
# The first fault of a text

A part of a text is viable if something can be put behind it that makes an accepted text of it. The
check reports the first place at which a text stops being viable. What it has read before a fault
is made of tokens that lead to a state of the check, and from every state the way to acceptance is
open: an operand, if one is due, and as many closing parentheses as are open. A token that is
refused begins with a character that begins only tokens of its kind, so this character rules out
whatever follows. Of a character that belongs to no token the same cannot be said, since a
connective may be cut short by the end of the text; but no symbol that has to be found whole is
longer than three characters, and these settle it.

Key definitions: `Token.CutBefore`, `Verdict.Viable`, `Verdict.Stops`, `Verdict.EndsTerm`,
`Problem.IsFirstAt`.
Key theorems: `Token.atStart?_eq_none_of_take`, `Token.category_eq_of_initial`,
`Verdict.ofText_append`, `Verdict.exists_stops_of_rejected`,
`Verdict.viable_of_run?`, `Verdict.judge_of_refused`, `Verdict.judge_of_stray`,
`Verdict.endsTerm_iff`, `Verdict.first_fault_of_rejected`.
-/
import Sentential.Proofs.Agreement

namespace Sentential

namespace Token

/-- The first part of a text is made of the tokens, with blanks anywhere between them, where `rest`
follows it: no name at the end of the part runs on into the rest. -/
inductive CutBefore (rest : List Char) : List Char → List Token → Prop
  | nil : CutBefore rest [] []
  | blank {b : Char} {cs : List Char} {ts : List Token} (hb : Text.isBlank b = true)
      (h : CutBefore rest cs ts) : CutBefore rest (b :: cs) ts
  | token {t : Token} {cs : List Char} {ts : List Token} (ht : t.IsSymbol)
      (he : t.EndsAt (cs ++ rest)) (h : CutBefore rest cs ts) :
      CutBefore rest (t.text.toList ++ cs) (t :: ts)

variable {t u : Token} {ts us : List Token} {cs ds rest rest' : List Char}

/-! ### Parts of a text -/

theorem CutBefore.append (h : CutBefore rest cs ts) (hr : Cut rest us) :
    Cut (cs ++ rest) (ts ++ us) := by
  induction h with
  | nil => exact hr
  | blank hb _ ih => exact .blank hb ih
  | token ht he _ ih =>
    rw [List.append_assoc, List.cons_append]
    exact .token ht he ih

/-- What follows a part may be changed, if a name does not run on into it. -/
theorem CutBefore.change (h : CutBefore rest cs ts)
    (hn : isNameChar (rest.headD ' ') = false → isNameChar (rest'.headD ' ') = false) :
    CutBefore rest' cs ts := by
  induction h with
  | nil => exact .nil
  | blank hb _ ih => exact .blank hb ih
  | @token t cs ts ht he _ ih =>
    refine .token ht (fun hname => ?_) ih
    cases cs with
    | nil => exact hn (he hname)
    | cons c cs => exact he hname

/-- The check meets the tokens of a part, and then whatever it meets in the rest. -/
theorem CutBefore.exists_pieces (h : CutBefore rest cs ts) (n : Nat) :
    ∃ pieces, pieces.map Piece.lexeme = ts.map .token ∧
      Piece.sequence n (cs ++ rest) = pieces ++ Piece.sequence (n + cs.length) rest := by
  induction h generalizing n with
  | nil => exact ⟨[], rfl, rfl⟩
  | blank hb _ ih =>
    obtain ⟨pieces, hp, hs⟩ := ih (n + 1)
    refine ⟨pieces, hp, ?_⟩
    rw [List.cons_append, sequence_blank hb, hs, List.length_cons, Nat.add_right_comm,
      Nat.add_assoc]
  | @token t cs ts ht he _ ih =>
    obtain ⟨pieces, hp, hs⟩ := ih (n + t.text.length)
    refine ⟨⟨n, .token t⟩ :: pieces, by rw [List.map_cons, List.map_cons, hp], ?_⟩
    rw [List.append_assoc, sequence_token (atStart?_eq_some_iff.mpr ⟨rfl, ht, he⟩), hs,
      List.length_append, String.length_toList, Nat.add_assoc, List.cons_append]

/-! ### What the first characters settle -/

/-- Every symbol begins with one of at most three characters. -/
theorem IsSymbol.exists_short (h : t.IsSymbol) :
    ∃ u : Token, u.IsSymbol ∧ u.text.toList <+: t.text.toList ∧ u.text.toList.length ≤ 3 := by
  have hlen : ∀ t ∈ reserved, t.text.toList.length ≤ 3 := by decide
  rcases h with hr | ⟨ha, ⟨c, cs, ht, hc, hcs⟩ | hb⟩
  · exact ⟨t, .inl hr, List.prefix_refl _, hlen t hr⟩
  · refine ⟨ofAtom (String.ofList [c]), .inr ⟨rfl, .inl ⟨c, [], ?_, hc, by simp⟩⟩, ?_, ?_⟩
    · exact String.toList_ofList
    · rw [ofAtom, String.toList_ofList, ht]
      exact ⟨cs, rfl⟩
    · rw [ofAtom, String.toList_ofList]
      exact Nat.le_add_left 1 2
  · refine ⟨t, .inr ⟨ha, .inr hb⟩, List.prefix_refl _, ?_⟩
    rcases hb with hb | hb <;> rw [hb] <;> decide

/-- Whether there is a token at the start of a text is settled by three characters. -/
theorem atStart?_eq_none_of_take (h : atStart? cs = none) (ht : ds.take 3 = cs.take 3) :
    atStart? ds = none := by
  rw [atStart?_eq_none_iff] at h ⊢
  intro t hs hp
  obtain ⟨u, hu, hut, hlen⟩ := hs.exists_short
  have htake : u.text.toList <+: ds.take 3 := List.prefix_take_iff.mpr ⟨hut.trans hp, hlen⟩
  rw [ht] at htake
  exact h u hu (htake.trans (List.take_prefix 3 cs))

/-- The first character of a token tells its category. -/
theorem category_eq_of_initial (ht : t.IsSymbol) (hu : u.IsSymbol) (h : t.initial = u.initial) :
    t.category = u.category := by
  have hr : ∀ t ∈ reserved, isNameChar t.initial = false ∧
      ∀ u ∈ reserved, t.initial = u.initial → t.category = u.category := by decide
  have ha : ∀ t : Token, IsName t.text ∨ IsBit t.text → isNameChar t.initial = true := by
    intro t h
    have := isNameChar_head_of_atom [] h
    rwa [List.append_nil] at this
  -- of a reserved symbol and an atom, only the atom begins with a character of a name
  rcases ht with ht | ht <;> rcases hu with hu | hu
  · exact (hr t ht).2 u hu h
  · have := (hr t ht).1
    rw [h, ha u hu.2] at this
    cases this
  · have := (hr u hu).1
    rw [← h, ha t ht.2] at this
    cases this
  · rw [ht.1, hu.1]

end Token

namespace Verdict

/-- Something can be put behind the text that makes an accepted text of it. -/
def Viable (cs : List Char) : Prop := ∃ rest, ofText (String.ofList (cs ++ rest)) = .accepted

/-- The last symbol of the text, which is made of symbols, is an atom or a closing parenthesis. -/
def EndsTerm (cs : List Char) : Prop :=
  ∃ ts t, Token.Cut cs (ts ++ [t]) ∧ (t.category = .atom ∨ t.category = .closing)

/-- The check, in the state of `depth` open parentheses and with an operand just ended or not,
stops with the problem at the start of what is left of the text. -/
inductive Stops (depth : Nat) (afterTerm : Bool) : List Char → Problem → Prop
  | unknown {c : Char} {cs : List Char} (hs : Token.atStart? (c :: cs) = none)
      (hb : Text.isBlank c = false) : Stops depth afterTerm (c :: cs) (.unknown c)
  | unexpected {t : Token} {cs rest : List Char} (hs : Token.atStart? cs = some (t, rest))
      (hr : Token.run? depth afterTerm [t] = none) :
      Stops depth afterTerm cs (.unexpected t.initial)
  | ending (hb : afterTerm = false) : Stops depth afterTerm [] .ending
  | unclosed (hb : afterTerm = true) (hd : 0 < depth) : Stops depth afterTerm [] .unclosed

variable {text : String} {problem : Problem} {ending n d d' p : Nat} {b b' : Bool} {t : Token}
  {ts : List Token} {pieces more : List Piece} {c : Char} {cs before rest : List Char}

/-! ### The check in the middle of a text -/

theorem judge_append (h : pieces.map Piece.lexeme = ts.map .token)
    (hr : Token.run? d b ts = some (d', b')) :
    judge ending d b (pieces ++ more) = judge ending d' b' more := by
  induction ts generalizing pieces d b with
  | nil =>
    obtain rfl := List.map_eq_nil_iff.mp h
    obtain ⟨rfl, rfl⟩ := Prod.mk.inj (Option.some.inj hr)
    rfl
  | cons t ts ih =>
    obtain ⟨⟨position, lexeme⟩, pieces, rfl, ht, hs⟩ := List.map_eq_cons_iff.mp h
    obtain rfl : lexeme = .token t := ht
    rw [Token.run?_cons] at hr
    obtain ⟨s, hs', hr⟩ := Option.bind_eq_some_iff.mp hr
    rw [List.cons_append, judge_token, hs']
    exact ih hs hr

/-- The check of a text, taken up behind a part made of tokens. -/
theorem ofText_append (hc : Token.CutBefore rest cs ts) (hr : Token.run? 0 false ts = some (d, b)) :
    ofText (String.ofList (cs ++ rest)) =
      judge (cs ++ rest).length d b (Piece.sequence cs.length rest) := by
  obtain ⟨pieces, hp, hs⟩ := hc.exists_pieces 0
  simp only [ofText, String.toList_ofList]
  rw [hs, Nat.zero_add, judge_append hp hr]

/-- Where the check stops, it has read tokens that lead to the state in which it does. -/
theorem exists_stops_of_judge (he : ending = n + cs.length)
    (h : judge ending d b (Piece.sequence n cs) = .rejected problem p) :
    ∃ before after ts d' b', cs = before ++ after ∧ p = n + before.length ∧
      Token.CutBefore after before ts ∧ Token.run? d b ts = some (d', b') ∧
      Stops d' b' after problem := by
  fun_induction Piece.sequence n cs generalizing d b with
  | case1 n cs t rest hs ih =>
    obtain ⟨hcs, ht, hend⟩ := Token.atStart?_eq_some_iff.mp hs
    rw [judge_token] at h
    split at h
    · next hr =>
      obtain ⟨rfl, rfl⟩ := Verdict.rejected.inj h
      exact ⟨[], cs, [], d, b, rfl, rfl, .nil, rfl, .unexpected hs hr⟩
    · next s hr =>
      have hlen : ending = n + t.text.length + rest.length := by
        rw [he, hcs, List.length_append, String.length_toList, Nat.add_assoc]
      obtain ⟨before, after, ts, d', b', rfl, rfl, hc, hr', hstop⟩ := ih hlen h
      refine ⟨t.text.toList ++ before, after, t :: ts, d', b', ?_, ?_, .token ht hend hc, ?_, hstop⟩
      · rw [hcs, List.append_assoc]
      · rw [List.length_append, String.length_toList, Nat.add_assoc]
      · rw [Token.run?_cons, hr]
        exact hr'
  | case2 n =>
    cases b with
    | false =>
      obtain ⟨rfl, rfl⟩ := Verdict.rejected.inj h
      exact ⟨[], [], [], d, false, rfl, he, .nil, rfl, .ending rfl⟩
    | true =>
      rw [judge, if_neg (by decide)] at h
      split at h
      · next hd =>
        obtain ⟨rfl, rfl⟩ := Verdict.rejected.inj h
        exact ⟨[], [], [], d, true, rfl, he, .nil, rfl, .unclosed rfl hd⟩
      · cases h
  | case3 n c rest hs hb ih =>
    have hlen : ending = n + 1 + rest.length := by
      rw [he, List.length_cons]
      omega
    obtain ⟨before, after, ts, d', b', rfl, rfl, hc, hr, hstop⟩ := ih hlen h
    refine ⟨c :: before, after, ts, d', b', rfl, ?_, .blank hb hc, hr, hstop⟩
    rw [List.length_cons]
    omega
  | case4 n c rest hs hb ih =>
    obtain ⟨rfl, rfl⟩ := Verdict.rejected.inj h
    exact ⟨[], c :: rest, [], d, b, rfl, rfl, .nil, rfl, .unknown hs (by simpa using hb)⟩

/-- A rejected text falls into a part that is made of tokens, none of which is refused, and what is
left, at the start of which the check stops. -/
theorem exists_stops_of_rejected (h : ofText text = .rejected problem p) :
    ∃ before after ts d b, text.toList = before ++ after ∧ p = before.length ∧
      Token.CutBefore after before ts ∧ Token.run? 0 false ts = some (d, b) ∧
      Stops d b after problem := by
  obtain ⟨before, after, ts, d, b, ht, hp, hc, hr, hs⟩ :=
    exists_stops_of_judge (Nat.zero_add _).symm h
  exact ⟨before, after, ts, d, b, ht, by rw [hp, Nat.zero_add], hc, hr, hs⟩

/-! ### Viable parts of a text -/

/-- What completes a text from a state of the check: an operand, if one is due, and the parentheses
that are to be closed. -/
def completion (depth : Nat) (afterTerm : Bool) : List Char :=
  (if afterTerm then [] else [' ', '0']) ++ List.replicate depth ')'

theorem exists_cut_replicate : ∀ d : Nat, ∃ ts, Token.Cut (List.replicate d ')') ts ∧
    Token.run? d true ts = some (0, true)
  | 0 => ⟨[], .nil, rfl⟩
  | d + 1 => by
    obtain ⟨ts, hc, hr⟩ := exists_cut_replicate d
    refine ⟨.closing :: ts, ?_, ?_⟩
    · exact .token (t := .closing) (.inl (by decide))
        (fun h => absurd h (Token.not_isName_of_mem_reserved (by decide))) hc
    · rw [Token.run?_closing rfl, if_pos rfl, hr]

theorem exists_cut_completion (d : Nat) (b : Bool) :
    ∃ ts, Token.Cut (completion d b) ts ∧ Token.run? d b ts = some (0, true) := by
  obtain ⟨ts, hc, hr⟩ := exists_cut_replicate d
  cases b with
  | true => exact ⟨ts, hc, hr⟩
  | false =>
    refine ⟨.ofAtom "0" :: ts, .blank rfl (.token (t := .ofAtom "0") ?_ ?_ hc), ?_⟩
    · exact .inr ⟨rfl, .inr (.inl rfl)⟩
    · exact fun h => absurd h (Token.not_isName_of_isBit (.inl rfl))
    · rw [Token.run?_atom rfl, if_neg (by decide), hr]

theorem accepted_of_completion (hc : Token.CutBefore rest cs ts)
    (hr : Token.run? 0 false ts = some (d, b)) :
    ofText (String.ofList (cs ++ completion d b)) = .accepted := by
  obtain ⟨us, hus, hrun⟩ := exists_cut_completion d b
  have hhead : Token.isNameChar ((completion d b).headD ' ') = false := by
    cases b <;> cases d <;> rfl
  rw [ofText_eq_accepted_iff_cut, String.toList_ofList]
  refine ⟨ts ++ us, (hc.change fun _ => hhead).append hus, ?_⟩
  rw [Token.Accepts, Token.run?_append, hr]
  exact hrun

theorem viable_of_run? (hc : Token.CutBefore rest cs ts)
    (hr : Token.run? 0 false ts = some (d, b)) : Viable cs :=
  ⟨completion d b, accepted_of_completion hc hr⟩

/-- What stops the check whatever comes behind it is not viable. -/
theorem not_viable_of_judge (hc : Token.CutBefore (c :: rest) before ts)
    (hr : Token.run? 0 false ts = some (d, b))
    (h : ∀ ending n more, judge ending d b (Piece.sequence n (c :: (cs ++ more))) ≠ .accepted) :
    ¬ Viable (before ++ c :: cs) := by
  rintro ⟨more, hacc⟩
  have hc' : Token.CutBefore (c :: (cs ++ more)) before ts := hc.change fun h => h
  rw [List.append_assoc, List.cons_append, ofText_append hc' hr] at hacc
  exact h _ _ _ hacc

/-- A refused token is ruled out by its first character. -/
theorem judge_of_refused (hs : t.IsSymbol) (hr : Token.run? d b [t] = none) (cs : List Char) :
    judge ending d b (Piece.sequence n (t.initial :: cs)) ≠ .accepted := by
  obtain ⟨c, ds, hc⟩ := List.exists_cons_of_ne_nil hs.text.1
  have hi : t.initial = c := by rw [Token.initial, hc, List.headD_cons]
  cases hat : Token.atStart? (t.initial :: cs) with
  | none =>
    have hb : Text.isBlank t.initial = false := hi ▸ (hs.text.2 c (hc ▸ List.mem_cons_self ..)).2
    rw [Token.sequence_stray hat hb, judge]
    rintro ⟨⟩
  | some found =>
    obtain ⟨u, rest⟩ := found
    obtain ⟨hcs, hu, -⟩ := Token.atStart?_eq_some_iff.mp hat
    -- another token may be found there, but it is of the same category
    have hinitial : t.initial = u.initial := by
      obtain ⟨c', ds', hc'⟩ := List.exists_cons_of_ne_nil hu.text.1
      rw [hc', List.cons_append] at hcs
      rw [(List.cons.inj hcs).1, Token.initial, hc', List.headD_cons]
    have hcat : [t].map Token.category = [u].map Token.category := by
      rw [List.map_singleton, List.map_singleton, Token.category_eq_of_initial hs hu hinitial]
    rw [Token.sequence_token hat, judge_token, ← Token.run?_congr hcat, hr]
    rintro ⟨⟩

/-- A stray character is ruled out by the three characters from it on. -/
theorem judge_of_stray (hs : Token.atStart? (c :: cs) = none) (hb : Text.isBlank c = false)
    (htake : cs.take 2 = rest.take 2) :
    judge ending d b (Piece.sequence n (c :: rest)) ≠ .accepted := by
  have hs' : Token.atStart? (c :: rest) = none :=
    Token.atStart?_eq_none_of_take hs (by rw [List.take_succ_cons, List.take_succ_cons, htake])
  rw [Token.sequence_stray hs' hb, judge]
  rintro ⟨⟩

/-- A text of which no token is refused ends in an atom or a closing parenthesis exactly if an
operand has just ended. -/
theorem endsTerm_iff (hc : Token.Cut cs ts) (hr : Token.run? 0 false ts = some (d, b)) :
    EndsTerm cs ↔ b = true := by
  have hends : ∀ k : Category, k.endsTerm = true ↔ k = .atom ∨ k = .closing := by
    intro k
    cases k <;> simp [Category.endsTerm]
  have hlast : ∀ us t, ts = us ++ [t] → t.category.endsTerm = b := by
    rintro us t rfl
    exact (Token.afterTerm_of_run? hr).symm
  constructor
  · rintro ⟨us, t, hus, ht⟩
    rw [← hlast us t (hc.unique hus), hends]
    exact ht
  · rintro rfl
    rcases List.eq_nil_or_concat ts with rfl | ⟨us, t, rfl⟩
    · cases hr
    · rw [List.concat_eq_append] at *
      exact ⟨us, t, hc, (hends _).mp (hlast us t rfl)⟩

end Verdict

/-- The problem is the first one of the text, and stands at the position. What is unexpected is
ruled out by its first character. What is unknown is no blank, no symbol begins there, and if there
are as many as three characters, these rule it out. A problem of the ending comes with a text that
is viable as a whole; if this ends after an operand, nothing but closing parentheses are missing. -/
def Problem.IsFirstAt (cs : List Char) (position : Nat) : Problem → Prop
  | unexpected c => cs[position]? = some c ∧ ¬ Verdict.Viable (cs.take (position + 1))
  | unknown c => cs[position]? = some c ∧ Text.isBlank c = false ∧
      (∀ t : Token, t.IsSymbol → ¬ t.text.toList <+: cs.drop position) ∧
      (position + 3 ≤ cs.length → ¬ Verdict.Viable (cs.take (position + 3)))
  | ending => position = cs.length ∧ Verdict.Viable cs ∧ ¬ Verdict.EndsTerm cs
  | unclosed => position = cs.length ∧ Verdict.Viable cs ∧ Verdict.EndsTerm cs ∧
      ∃ missing, 0 < missing ∧
        Verdict.ofText (String.ofList (cs ++ List.replicate missing ')')) = .accepted

namespace Verdict

variable {text : String} {problem : Problem} {d p : Nat} {b : Bool} {ts : List Token}
  {before after : List Char}

theorem isFirstAt_of_stops (hc : Token.CutBefore after before ts)
    (hr : Token.run? 0 false ts = some (d, b)) (h : Stops d b after problem) :
    problem.IsFirstAt (before ++ after) before.length := by
  cases h with
  | @unknown c cs hs hb =>
    refine ⟨by simp, hb, ?_, fun hlen => ?_⟩
    · rw [List.drop_left]
      exact Token.atStart?_eq_none_iff.mp hs
    · rw [List.take_length_add_append]
      refine not_viable_of_judge hc hr fun ending n more => judge_of_stray hs hb ?_
      have : 2 ≤ cs.length := by
        simp only [List.length_append, List.length_cons] at hlen
        omega
      rw [List.take_append_of_le_length (by simp [this]), List.take_take, Nat.min_self]
  | @unexpected t cs rest hs hrefused =>
    obtain ⟨rfl, ht, -⟩ := Token.atStart?_eq_some_iff.mp hs
    obtain ⟨c, ds, hcs⟩ := List.exists_cons_of_ne_nil ht.text.1
    have hi : t.initial = c := by rw [Token.initial, hcs, List.headD_cons]
    rw [hcs, List.cons_append] at hc ⊢
    refine ⟨by simp [hi], ?_⟩
    rw [List.take_length_add_append]
    refine not_viable_of_judge hc hr fun ending n more => ?_
    exact hi ▸ judge_of_refused ht hrefused _
  | ending hb =>
    have hcut := hc.append .nil
    rw [List.append_nil, List.append_nil] at hcut
    rw [List.append_nil]
    refine ⟨rfl, viable_of_run? hc hr, ?_⟩
    rw [endsTerm_iff hcut hr, hb]
    decide
  | unclosed hb hd =>
    have hcut := hc.append .nil
    rw [List.append_nil, List.append_nil] at hcut
    rw [List.append_nil]
    subst hb
    have hacc := accepted_of_completion hc hr
    rw [completion, if_pos rfl, List.nil_append] at hacc
    exact ⟨rfl, viable_of_run? hc hr, (endsTerm_iff hcut hr).mpr rfl, d, hd, hacc⟩

/-- **A rejection points at the first fault.** Up to the position of the problem the text is viable,
and the problem is the first one there. -/
theorem first_fault_of_rejected (h : ofText text = .rejected problem p) :
    p ≤ text.toList.length ∧ Viable (text.toList.take p) ∧ problem.IsFirstAt text.toList p := by
  obtain ⟨before, after, ts, d, b, ht, rfl, hc, hr, hs⟩ := exists_stops_of_rejected h
  rw [ht, List.take_left]
  exact ⟨by simp, viable_of_run? hc hr, isFirstAt_of_stops hc hr hs⟩

/-- An arrow that points the wrong way: its first character alone could still become a
biconditional, the three from it on rule that out. -/
theorem first_fault_of_reversed_arrow : ofText "(p <- q" = .rejected (.unknown '<') 3 ∧
    Viable "(p ".toList ∧ Viable "(p <".toList ∧ ¬ Viable "(p <- ".toList := by
  have h : ofText "(p <- q" = .rejected (.unknown '<') 3 := by decide +kernel
  have hcontinued : ofText (String.ofList ("(p <".toList ++ "->q)".toList)) = .accepted := by
    decide +kernel
  obtain ⟨-, hviable, -, -, -, hnot⟩ := first_fault_of_rejected h
  exact ⟨h, hviable, ⟨_, hcontinued⟩, hnot (by decide)⟩

end Verdict
end Sentential
