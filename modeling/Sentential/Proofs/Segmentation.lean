/-
# One way of cutting a text

The check cuts a text as it stands, the reader what is left of it without blanks and in upper case.
For a text that is rejected the two may differ: where nothing but a blank stands between two names,
or inside a connective, the reader finds one token and the check two, or none. In an accepted
text operands and what joins them take turns, so that no two neighbours can run together, and the
two cut it at the same places. The normal form of an accepted text is a text of the same kind: it is
accepted, and its tokens stand one right behind the other.

Key definitions: `Token.normalText`.
Key theorems: `Token.ofText_normalText`, `Verdict.accepted_normalText`,
`Verdict.pieces_agree_with_tokens`.
-/
import Sentential.Proofs.Agreement

namespace Sentential

namespace Token

/-- The normal form of a text, as a text. -/
def normalText (text : String) : String := String.ofList (normalForm text.toList)

variable {text : String} {ts : List Token}

theorem splits_normalText (hc : Cut text.toList ts) (hs : Separated ts) :
    Splits (normalText text).toList (ts.map upper) := by
  have h := splits_normalForm hc hs
  rwa [normalText, String.toList_ofList]

/-- The tokens of the normal form are those of the text. -/
theorem ofText_normalText (hc : Cut text.toList ts) (hs : Separated ts) :
    ofText (normalText text) = ts.map upper := by
  have hn := splits_normalText hc hs
  rw [ofText_of_cut hn.cut (separated_of_splits hn), List.map_map]
  refine List.map_congr_left fun t ht => ?_
  exact upper_upper (hc.isSymbol t ht)

end Token

namespace Verdict

variable {text : String}

/-- The normal form of an accepted text is accepted. -/
theorem accepted_normalText (h : ofText text = .accepted) :
    ofText (Token.normalText text) = .accepted := by
  obtain ⟨ts, hc, ha, hs⟩ := exists_cut_of_accepted h
  have hn : Token.Cut (Token.normalText text).toList (ts.map Token.upper) :=
    (Token.splits_normalText hc hs).cut
  exact ofText_eq_accepted_iff_cut.mpr ⟨_, hn, Token.accepts_map_upper.mpr ha⟩

/-- **The check and the reader cut an accepted text at the same places.** All pieces that the check
meets are tokens, and the reader finds the same ones in upper case, which changes the atoms only.
The normal form is accepted as well and has the same tokens, each of them found right where the
one before it ends. -/
theorem pieces_agree_with_tokens (h : ofText text = .accepted) : ∃ ts : List Token,
    (Piece.sequence 0 text.toList).map Piece.lexeme = ts.map .token ∧
      Token.ofText text = ts.map Token.upper ∧
      (∀ t ∈ ts, t.category ≠ .atom → t.upper = t) ∧
      ofText (Token.normalText text) = .accepted ∧
      Token.ofText (Token.normalText text) = Token.ofText text ∧
      Token.SplitsFrom (Token.normalText text) 0 (Token.ofText text) := by
  obtain ⟨ts, hc, -, hs⟩ := exists_cut_of_accepted h
  have hread : Token.ofText text = ts.map Token.upper := Token.ofText_of_cut hc hs
  have hfixed : ∀ t ∈ ts, t.category ≠ .atom → t.upper = t := by
    intro t ht hne
    rcases hc.isSymbol t ht with hr | ha
    · exact Token.upper_of_mem_reserved hr
    · exact absurd ha.1 hne
  refine ⟨ts, Token.lexemes_eq_iff_cut.mpr hc, hread, hfixed, accepted_normalText h, ?_, ?_⟩
  · rw [hread, Token.ofText_normalText hc hs]
  · rw [hread, Token.splitsFrom_iff_splits (Nat.zero_le _)]
    exact Token.splits_normalText hc hs

/-- A name and a literal in lower case among blanks of several kinds. -/
theorem pieces_agree_with_tokens_among_blanks :
    ofText " p1\u2003<->(!q &&\t0 )" = .accepted ∧
      Token.ofText " p1\u2003<->(!q &&\t0 )" = [.ofAtom "P1", .ofConnective .xnor, .opening,
        .ofConnective .not, .ofAtom "Q", .ofConnective .and, .ofAtom "0", .closing] ∧
      ofText (Token.normalText " p1\u2003<->(!q &&\t0 )") = .accepted := by
  have hacc : ofText " p1\u2003<->(!q &&\t0 )" = .accepted := by decide +kernel
  have hpieces : (Piece.sequence 0 " p1\u2003<->(!q &&\t0 )".toList).map Piece.lexeme =
      [Token.ofAtom "p1", .ofConnective .xnor, .opening, .ofConnective .not, .ofAtom "q",
        .ofConnective .and, .ofAtom "0", .closing].map .token := by decide +kernel
  obtain ⟨ts, hts, hread, -, hnormal, -⟩ := pieces_agree_with_tokens hacc
  rw [hpieces] at hts
  have hinj : Function.Injective Lexeme.token := fun _ _ he => Lexeme.token.inj he
  rw [← hinj.list_map hts] at hread
  refine ⟨hacc, ?_, hnormal⟩
  rw [hread]
  decide

end Verdict
end Sentential
