/-
# What the command comes to

Once its arguments are understood and its settings are known, the command shows texts: the lines of
its input before the one that asks to end, in interactive mode, or else its formula. It comes to an
end exactly if each of them can be shown. If the glyphs are texts without markup, that is always so,
and then the exit code is the verdict on the formula, whatever the form and the style in which it is
shown, and in interactive mode it is zero.

Key definitions: `Settings.inStyle`, `Settings.HasTextGlyphs`, `CommandLine.answered`,
`CommandLine.replies`, `CommandLine.textsShown`, `CommandLine.transcript`.
Key theorems: `CommandLine.loadSettings_eq`, `CommandLine.turn_of_answered`,
`CommandLine.interact_eq`, `CommandLine.run_ok_iff`, `CommandLine.verdict_of_run`.
-/
import Sentential.CommandLine.Run
import Sentential.Proofs.Display

namespace Sentential

namespace Settings

/-- The settings in the style that the arguments give, if they give one. -/
def inStyle (s : Settings) (style : Option Style) : Settings := style.elim s s.withStyle

def HasTextGlyphs (s : Settings) : Prop := ∀ b, ∃ g, s.glyph b = .str g

variable {s : Settings} {style : Option Style}

@[simp]
theorem glyph_inStyle {b : Bool} : (s.inStyle style).glyph b = s.glyph b := by
  cases style <;> rfl

theorem LacksMarkup.inStyle (hm : s.LacksMarkup) : (s.inStyle style).LacksMarkup := by
  intro b text
  rw [glyph_inStyle]
  exact hm b text

end Settings

namespace CommandLine

variable {c : Console} {s : Settings} {a : Arguments} {w : World} {moment : Nat}
  {text input : String} {arguments lines : List String} {style : Option Style}

/-! ### The style -/

@[simp]
theorem isTabulable_inStyle : IsTabulable (s.inStyle style) text ↔ IsTabulable s text := by
  cases style <;> exact Iff.rfl

@[simp]
theorem shows_inStyle {b : Bool} : Shows (s.inStyle style) text b ↔ Shows s text b := by
  cases style <;> exact Iff.rfl

/-- The settings that are found for a run, before the arguments give them a style. -/
def findSettings (c : Console) (w : World) (config : Option String) :
    Except Abort (Except Outcome Settings) :=
  match config.filter (· ≠ "") with
  | none => reported c (Settings.ofEnvironment w.environment)
  | some path =>
    match w.entry path with
    | .missing => (missingFile c path).map .error
    | .directory => .error (.directory path)
    | .file content _ => reported c (Settings.ofFile content)

/-- The settings for a run are those that are found, in the style that the arguments give. -/
theorem loadSettings_eq :
    loadSettings c w a = (findSettings c w a.config).map (·.map (·.inStyle a.style)) := by
  have hstyled : ∀ (f : Settings → Settings) (found : Except Abort (Except Outcome Settings)),
      (found >>= fun loaded => pure (loaded.map f)) = found.map (·.map f) := by
    intro f found
    cases found <;> rfl
  obtain ⟨formula, style, json, config, interactive, verbose⟩ := a
  unfold loadSettings findSettings
  dsimp only
  cases config.filter (· ≠ "") with
  | none => cases style <;> exact hstyled _ _
  | some path =>
    dsimp only
    cases w.entry path <;> cases style <;> exact hstyled _ _

theorem loadSettings_of_withoutStyle
    (h : loadSettings c w { a with style := none } = .ok (.ok s)) :
    loadSettings c w a = .ok (.ok (s.inStyle a.style)) := by
  rw [loadSettings_eq] at h ⊢
  obtain ⟨loaded, hfound, hloaded⟩ := map_ok_iff.mp h
  obtain ⟨s', rfl, rfl⟩ := map_ok_iff.mp hloaded
  rw [hfound]
  rfl

/-! ### Interactive mode -/

/-- The lines of the input that are answered: those before the one that asks to end. -/
def answered (input : String) : List String :=
  (inputLines input).takeWhile fun line => !isExit line

/-- The replies to some lines, of which the first is shown at a moment and each other one at the
moment after. -/
def replies (c : Console) (s : Settings) (a : Arguments) (moment : Nat) (lines : List String) :
    Except Unprintable (List String) :=
  (lines.zipIdx moment).mapM fun p => reply c s a p.2 p.1

/-- What is printed from a prompt on, given the replies that follow it. -/
def exchanges (c : Console) (replies : List String) : String :=
  String.join (replies.map (prompt ++ ·)) ++ (prompt ++ farewell c)

/-- What is printed in interactive mode, given the replies. -/
def transcript (c : Console) (a : Arguments) (replies : List String) : String :=
  opening c a ++ exchanges c replies

theorem turn_of_ended {line : Option String} (h : ∀ l ∈ line, isExit l = true) :
    turn c s a moment line = .ok ⟨farewell c, false⟩ := by
  cases line with
  | none => rfl
  | some l => rw [turn, if_pos (h l rfl)]

/-- A turn whose line does not ask to end prints the reply to it, and another turn follows. -/
theorem turn_of_answered {line : String} (h : isExit line = false) :
    turn c s a moment (some line) =
      (reply c s a moment line).map fun output => ⟨output, true⟩ := by
  rw [turn, if_neg (by simp [h])]

theorem replies_cons {line : String} : replies c s a moment (line :: lines) = do
    let first ← reply c s a moment line
    let rest ← replies c s a (moment + 1) lines
    return first :: rest := by
  rw [replies, List.zipIdx_cons, List.mapM_cons]
  rfl

/-- Interactive mode answers line after line. -/
theorem interact_eq : interact c s a moment lines =
    (replies c s a moment (lines.takeWhile fun line => !isExit line)).map (exchanges c) := by
  induction lines generalizing moment with
  | nil => rfl
  | cons line lines ih =>
    rw [interact]
    cases hexit : isExit line with
    | true =>
      rw [turn_of_ended (by simpa using hexit), List.takeWhile_cons_of_neg (by simp [hexit])]
      rfl
    | false =>
      rw [turn_of_answered hexit, List.takeWhile_cons_of_pos (by simp [hexit]), replies_cons, ih]
      cases reply c s a moment line with
      | error u => rfl
      | ok first =>
        cases replies c s a (moment + 1) (lines.takeWhile fun line => !isExit line) with
        | error u => rfl
        | ok rest =>
          show Except.ok _ = Except.ok _
          simp [exchanges, String.join_cons, String.append_assoc]

theorem exists_reply_iff : (∃ r, reply c s a moment input = .ok r) ↔
    ∃ shown, display c s a.json input = .ok shown := by
  rw [reply]
  cases display c s a.json input <;> simp [Except.map]

theorem exists_replies_iff : (∃ rs, replies c s a moment lines = .ok rs) ↔
    ∀ line ∈ lines, ∃ shown, display c s a.json line = .ok shown := by
  rw [replies, exists_mapM_ok_iff]
  simp only [exists_reply_iff]
  constructor
  · intro h line hline
    obtain ⟨n, hn, rfl⟩ := List.getElem_of_mem hline
    exact h (lines[n], moment + n) (List.mk_mem_zipIdx_iff_le_and_getElem?_sub.mpr (by simp [hn]))
  · intro h p hp
    exact h p.1 (List.fst_mem_of_mem_zipIdx hp)

/-! ### Runs -/

theorem plan_eq (ha : Arguments.ofList arguments = .ok (.run a))
    (hs : loadSettings c w a = .ok (.ok s)) :
    plan c w arguments = (planWith c s a).mapError Abort.unprintable := by
  rw [plan, ha]
  show (loadSettings c w a >>= _) = _
  rw [hs]
  rfl

/-- Without settings, a run is what has become of their loading. -/
theorem run_without_settings (ha : Arguments.ofList arguments = .ok (.run a))
    {r : Except Abort Outcome} (hs : loadSettings c w a = r.map .error) :
    run c w arguments input = r := by
  have hplan : plan c w arguments = r.map .finish := by
    rw [plan, ha]
    show (loadSettings c w a >>= _) = _
    rw [hs]
    cases r <;> rfl
  rw [run, hplan]
  cases r <;> rfl

theorem run_of_formula (ha : Arguments.ofList arguments = .ok (.run a))
    (hs : loadSettings c w a = .ok (.ok s)) (hi : a.interactive = false)
    (hf : a.formula = some text) : run c w arguments input =
      ((display c s a.json text).map fun shown =>
        (⟨if shown.success then 0 else 1, logged c a 0 ++ logged c a 1 ++ shown.output, ""⟩ :
          Outcome)).mapError Abort.unprintable := by
  rw [run, plan_eq ha hs, planWith, if_neg (by simp [hi]), hf]
  dsimp only
  cases display c s a.json text <;> rfl

theorem run_of_interactive (ha : Arguments.ofList arguments = .ok (.run a))
    (hs : loadSettings c w a = .ok (.ok s)) (hi : a.interactive = true) :
    run c w arguments input =
      ((replies c s a 1 (answered input)).map fun rs =>
        (⟨0, transcript c a rs, ""⟩ : Outcome)).mapError Abort.unprintable := by
  rw [run, plan_eq ha hs, planWith, if_pos hi]
  show ((interact c s a 1 (inputLines input)).mapError Abort.unprintable >>= _) = _
  rw [interact_eq, answered]
  cases replies c s a 1 ((inputLines input).takeWhile fun line => !isExit line) <;> rfl

theorem run_of_nothing (ha : Arguments.ofList arguments = .ok (.run a))
    (hs : loadSettings c w a = .ok (.ok s)) (hi : a.interactive = false)
    (hf : a.formula = none) :
    run c w arguments input = .ok ⟨0, logged c a 0 ++ help, ""⟩ := by
  rw [run, plan_eq ha hs, planWith, if_neg (by simp [hi]), hf]
  rfl

/-- The texts that a run shows: the lines that are answered, or else the formula. -/
def textsShown (a : Arguments) (input : String) : List String :=
  if a.interactive then answered input else a.formula.toList

/-- A run comes to an end exactly if each of its texts can be shown. -/
theorem run_ok_iff (ha : Arguments.ofList arguments = .ok (.run a))
    (hs : loadSettings c w a = .ok (.ok s)) : (∃ o, run c w arguments input = .ok o) ↔
      ∀ text ∈ textsShown a input, ∃ shown, display c s a.json text = .ok shown := by
  have hmap : ∀ {α : Type} (x : Except Unprintable α) (f : α → Outcome),
      (∃ o, (x.map f).mapError Abort.unprintable = .ok o) ↔ ∃ y, x = .ok y := by
    intro α x f
    simp only [mapError_ok_iff, map_ok_iff]
    exact ⟨fun ⟨_, y, hy, _⟩ => ⟨y, hy⟩, fun ⟨y, hy⟩ => ⟨f y, y, hy, rfl⟩⟩
  cases hi : a.interactive with
  | true => rw [run_of_interactive ha hs hi, hmap, exists_replies_iff, textsShown, if_pos hi]
  | false =>
    rw [textsShown, if_neg (by simp [hi])]
    cases hf : a.formula with
    | none => exact iff_of_true ⟨_, run_of_nothing ha hs hi hf⟩ (by simp)
    | some text =>
      rw [run_of_formula ha hs hi hf, hmap]
      simp

/-! ### Verdicts -/

theorem exists_display (hc : c.Prints) (hg : s.HasTextGlyphs) (hm : s.LacksMarkup) (json : Bool)
    (text : String) : ∃ shown, display c s json text = .ok shown :=
  (display_ok_iff hc hm).mpr fun _ b _ => hg b

/-- **With glyphs that are texts without markup, the verdict of the command is that of the
analysis.** Every text is shown, in both forms, and all went well exactly if it is blank, or
accepted and within both limits. With it as formula, the exit code says the same, whatever the form
and the style that the arguments ask for. In interactive mode each line before the one that asks to
end is answered, and the exit code is zero.

The console is any that does what is relied on. Limits of a machine, on the depth of a recursion or
on memory, are set aside. -/
theorem verdict_of_run (hc : c.Prints) (hg : s.HasTextGlyphs) (hm : s.LacksMarkup) :
    (∀ json text, ∃ shown, display c s json text = .ok shown ∧
      (shown.success = true ↔ IsTabulable s text)) ∧
    ∀ (w : World) (arguments : List String) (a : Arguments) (input : String),
      Arguments.ofList arguments = .ok (.run a) →
      loadSettings c w { a with style := none } = .ok (.ok s) →
      (∀ text, a.interactive = false → a.formula = some text → ∃ o,
        run c w arguments input = .ok o ∧ o.code = if IsTabulable s text then 0 else 1) ∧
      (a.interactive = true → ∃ rs,
        replies c (s.inStyle a.style) a 1
          ((inputLines input).takeWhile fun line => !isExit line) = .ok rs ∧
        run c w arguments input = .ok ⟨0, transcript c a rs, ""⟩) := by
  constructor
  · intro json text
    obtain ⟨shown, hshown⟩ := exists_display hc hg hm json text
    exact ⟨shown, hshown, (shown_of_display hc hshown).1⟩
  · intro w arguments a input ha hfound
    have hs := loadSettings_of_withoutStyle hfound
    have hg' : (s.inStyle a.style).HasTextGlyphs := fun b => by simpa using hg b
    have hshow : ∀ text, ∃ shown, display c (s.inStyle a.style) a.json text = .ok shown :=
      exists_display hc hg' hm.inStyle a.json
    constructor
    · intro text hi hf
      obtain ⟨shown, hshown⟩ := hshow text
      have hsuccess : shown.success = true ↔ IsTabulable s text :=
        (shown_of_display hc hshown).1.trans isTabulable_inStyle
      refine ⟨_, by rw [run_of_formula ha hs hi hf, hshown]; rfl, ?_⟩
      simp only [hsuccess]
    · intro hi
      obtain ⟨rs, hrs⟩ := exists_replies_iff.mpr fun line _ => hshow line
      exact ⟨rs, hrs, by rw [run_of_interactive ha hs hi, answered, hrs]; rfl⟩

/-- A formula that is typeset in its table, one that is rejected, and a conversation of which the
third line asks to end. -/
theorem verdict_of_run_typeset :
    (∃ o, run .plain ⟨[], fun _ => .missing⟩ ["--style", "latex", "p -> q"] "" = .ok o ∧
      o.code = 0) ∧
    (∃ o, run .plain ⟨[], fun _ => .missing⟩ ["p ->", "--style", "source"] "" = .ok o ∧
      o.code = 1) ∧
    ∃ rs, replies .plain Settings.default { interactive := true, json := true } 1 ["p ->", "p"] =
        .ok rs ∧
      run .plain ⟨[], fun _ => .missing⟩ ["--interactive", "--json"] "p ->\np\nquit\nq" =
        .ok ⟨0, transcript .plain { interactive := true, json := true } rs, ""⟩ := by
  have hg : Settings.default.HasTextGlyphs := fun b => by cases b <;> exact ⟨_, rfl⟩
  have hm : Settings.default.LacksMarkup := by
    intro b text htext
    cases b <;> cases htext <;> exact hasMarkup_of_notMem (by decide)
  obtain ⟨-, h⟩ := verdict_of_run Console.plain_prints hg hm
  refine ⟨?_, ?_, ?_⟩
  · obtain ⟨o, ho, hcode⟩ := (h ⟨[], fun _ => .missing⟩ ["--style", "latex", "p -> q"]
      { formula := some "p -> q", style := some .latex } "" (by decide +kernel)
      rfl).1 "p -> q" rfl rfl
    have ht : IsTabulable Settings.default "p -> q" := by decide +kernel
    exact ⟨o, ho, by rw [hcode, if_pos ht]⟩
  · obtain ⟨o, ho, hcode⟩ := (h ⟨[], fun _ => .missing⟩ ["p ->", "--style", "source"]
      { formula := some "p ->", style := some .source } "" (by decide +kernel)
      rfl).1 "p ->" rfl rfl
    have ht : ¬ IsTabulable Settings.default "p ->" := by decide +kernel
    exact ⟨o, ho, by rw [hcode, if_neg ht]⟩
  · have hl : ((inputLines "p ->\np\nquit\nq").takeWhile fun line => !isExit line) =
        ["p ->", "p"] := by decide +kernel
    have h' := (h ⟨[], fun _ => .missing⟩ ["--interactive", "--json"]
      { interactive := true, json := true } "p ->\np\nquit\nq" (by decide +kernel) rfl).2 rfl
    rwa [hl] at h'

end CommandLine
end Sentential
