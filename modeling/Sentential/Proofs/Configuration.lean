/-
# Runs with a file of settings

A file whose content is no JSON, or holds a wrong value for a setting, is reported: the run ends
with the exit code one and says what is wrong. Not so if the shape is wrong, that is, if the content
is JSON but no object, or an object with a member that is no setting; then the run stops without a
report. Nor does a run come to an end that draws a table with a truth value whose glyph is no text,
for every value that holds something is allowed as a glyph. Every other run with a file of settings
comes to an end, as long as no glyph holds markup; a glyph that does is handed to the console all the
same, and what becomes of the run then depends on the console.

The reader has no limit on how deep a value is nested and on how many digits an integer has. A
machine has, and what it does beyond them is not covered.

Key definitions: `Settings.IsShaped`, `CommandLine.IsReported`.
Key theorems: `CommandLine.isReported_ofMembers_iff`, `CommandLine.isReported_ofFile_iff`,
`CommandLine.output_of_run`, `CommandLine.run_with_file`.
-/
import Sentential.Proofs.Command
import Sentential.Proofs.PrintedJson

namespace Sentential

/-- The value is an object, and each of its members has the name of a setting. -/
def Settings.IsShaped (j : Json) : Prop :=
  ∃ given, j = .obj given ∧ ∀ m ∈ given, ∃ key : Settings.Key, key.name = m.1

namespace CommandLine

variable {α β : Type} {c : Console} {s : Settings} {a : Arguments} {w : World}
  {path content input : String} {whole : Json.hasLoneHalf content.toList = false}
  {arguments : List String} {given : List (String × Json)}

/-! ### Which errors are reported -/

/-- If the settings are wrong, this is reported. -/
def IsReported (x : Except SettingsError α) : Prop := ∀ e, x = .error e → isMisuse e = false

theorem IsReported.bind {x : Except SettingsError α} {f : α → Except SettingsError β}
    (hx : IsReported x) (hf : ∀ y, IsReported (f y)) : IsReported (x >>= f) := by
  cases x with
  | error e =>
    intro e' he
    obtain rfl := Except.error.inj he
    exact hx e rfl
  | ok y => exact hf y

theorem isReported_ok {y : α} : IsReported (.ok y : Except SettingsError α) := nofun

theorem isReported_error_iff {e : SettingsError} :
    IsReported (.error e : Except SettingsError α) ↔ isMisuse e = false := by
  constructor
  · intro h
    exact h e rfl
  · intro h e' he
    obtain rfl := Except.error.inj he
    exact h

theorem isReported_readStyle (value : Json) : IsReported (Settings.readStyle value) := by
  unfold Settings.readStyle
  split
  · split
    · exact isReported_ok
    · exact isReported_error_iff.mpr rfl
  · exact isReported_error_iff.mpr rfl

theorem isReported_readLimit (key : Settings.Key) (value : Json) :
    IsReported (Settings.readLimit key value) := by
  unfold Settings.readLimit
  split
  · split
    · exact isReported_error_iff.mpr rfl
    · exact isReported_ok
  · exact isReported_error_iff.mpr rfl

theorem isReported_withGlyphs (style : Style) (m n : Nat) (x y : Json) :
    IsReported (Settings.withGlyphs style m n x y) := by
  unfold Settings.withGlyphs
  split
  · split
    · exact isReported_ok
    · exact isReported_error_iff.mpr rfl
  · exact isReported_error_iff.mpr rfl

theorem checkNames_ok_iff {names : List String} : Settings.checkNames names = .ok () ↔
    ∀ name ∈ names, ∃ key : Settings.Key, key.name = name := by
  have hreserved : ∀ key : Settings.Key, key.name ≠ Settings.reservedName := by
    intro key
    cases key <;> decide
  have hall : ∀ name, Settings.Key.all.any (·.name = name) = true ↔
      ∃ key : Settings.Key, key.name = name := by
    intro name
    rw [List.any_eq_true]
    constructor
    · rintro ⟨key, -, hkey⟩
      exact ⟨key, of_decide_eq_true hkey⟩
    · rintro ⟨key, hkey⟩
      exact ⟨key, by cases key <;> decide, decide_eq_true hkey⟩
  induction names with
  | nil => exact iff_of_true rfl nofun
  | cons name names ih =>
    rw [List.forall_mem_cons, ← hall]
    refine Iff.trans ?_ (and_congr_right' ih)
    rw [Settings.checkNames]
    by_cases hself : name = Settings.reservedName
    · rw [if_pos hself, hall]
      refine iff_of_false nofun ?_
      rintro ⟨⟨key, hkey⟩, -⟩
      exact hreserved key (hkey.trans hself)
    · rw [if_neg hself]
      by_cases hname : Settings.Key.all.any (·.name = name) = true
      · rw [if_pos hname]
        exact (and_iff_right hname).symm
      · rw [if_neg hname]
        exact iff_of_false nofun fun h => hname h.1

theorem isMisuse_of_checkNames {names : List String} {e : SettingsError}
    (h : Settings.checkNames names = .error e) : isMisuse e = true := by
  induction names with
  | nil => cases h
  | cons name names ih =>
    unfold Settings.checkNames at h
    split at h
    · obtain rfl := Except.error.inj h
      rfl
    · split at h
      · exact ih h
      · obtain rfl := Except.error.inj h
        rfl

/-- Wrong members are reported exactly if each has the name of a setting. -/
theorem isReported_ofMembers_iff : IsReported (Settings.ofMembers given) ↔
    ∀ m ∈ given, ∃ key : Settings.Key, key.name = m.1 := by
  have hnames : (∀ m ∈ given, ∃ key : Settings.Key, key.name = m.1) ↔
      Settings.checkNames (given.map (·.1)) = .ok () := by
    rw [checkNames_ok_iff, List.forall_mem_map]
  rw [hnames]
  unfold Settings.ofMembers
  cases hc : Settings.checkNames (given.map (·.1)) with
  | error e =>
    refine iff_of_false (fun h => ?_) nofun
    have hmisuse := isMisuse_of_checkNames hc
    rw [h e rfl] at hmisuse
    cases hmisuse
  | ok u =>
    refine iff_of_true ?_ rfl
    apply (isReported_ok (y := u)).bind
    intro _
    apply (isReported_readStyle _).bind
    intro style
    apply (isReported_readLimit _ _).bind
    intro m
    apply (isReported_readLimit _ _).bind
    intro n
    exact isReported_withGlyphs _ _ _ _ _

/-- What a file of settings holds is reported if it is wrong, unless it is JSON of a wrong shape. -/
theorem isReported_ofFile_iff : IsReported (Settings.ofFile content) ↔
    ∀ j, Json.readFile content = .ok j → Settings.IsShaped j := by
  unfold Settings.ofFile
  cases Json.readFile content with
  | error e => exact iff_of_true (isReported_error_iff.mpr rfl) nofun
  | ok j =>
    have hshape : (∀ j', Except.ok j = Except.ok (ε := Json.ReadError) j' → Settings.IsShaped j') ↔
        Settings.IsShaped j := ⟨fun h => h j rfl, fun h j' hj => Except.ok.inj hj ▸ h⟩
    rw [hshape]
    cases j with
    | obj given =>
      rw [isReported_ofMembers_iff]
      constructor
      · exact fun h => ⟨given, rfl, h⟩
      · rintro ⟨given', ⟨⟩, h⟩
        exact h
    | _ =>
      refine iff_of_false (fun h => ?_) (by rintro ⟨given, ⟨⟩, -⟩)
      cases h _ rfl

/-! ### What is printed -/

theorem help_ne_empty : help ≠ "" := by
  unfold help
  intro h
  exact absurd (String.append_eq_empty_iff.mp h).2 (by decide)

/-- A run with settings that comes to an end has one of two exit codes, and prints something. -/
theorem output_of_run (hc : c.Prints) {o : Outcome}
    (ha : Arguments.ofList arguments = .ok (.run a)) (hs : loadSettings c w a = .ok (.ok s))
    (h : run c w arguments input = .ok o) :
    (o.code = 0 ∨ o.code = 1) ∧ o.output ≠ "" ∧ o.errors = "" := by
  cases hi : a.interactive with
  | true =>
    rw [run_of_interactive ha hs hi, mapError_ok_iff] at h
    obtain ⟨rs, -, rfl⟩ := map_ok_iff.mp h
    refine ⟨.inl rfl, ?_, rfl⟩
    simp [transcript, opening, greeting, String.append_eq_empty_iff, hc.line_ne_empty]
  | false =>
    cases hf : a.formula with
    | none =>
      rw [run_of_nothing ha hs hi hf] at h
      obtain rfl := Except.ok.inj h
      exact ⟨.inl rfl, by simp [String.append_eq_empty_iff, help_ne_empty], rfl⟩
    | some text =>
      rw [run_of_formula ha hs hi hf, mapError_ok_iff] at h
      obtain ⟨shown, hshown, rfl⟩ := map_ok_iff.mp h
      refine ⟨?_, by simp [String.append_eq_empty_iff, (shown_of_display hc hshown).2], rfl⟩
      cases hsuccess : shown.success <;> simp

/-! ### Runs -/

theorem loadSettings_of_file (hconfig : a.config = some path) (hp : path ≠ "")
    (hw : w.entry path = .file content whole) : loadSettings c w a =
      (reported c (Settings.ofFile content)).map (·.map (·.inStyle a.style)) := by
  rw [loadSettings_eq, hconfig, findSettings, Option.filter_some, if_pos (by simpa using hp)]
  dsimp only
  rw [hw]

theorem run_of_wrong_file {e : SettingsError} (ha : Arguments.ofList arguments = .ok (.run a))
    (hconfig : a.config = some path) (hp : path ≠ "") (hw : w.entry path = .file content whole)
    (hfile : Settings.ofFile content = .error e) : run c w arguments input =
      if isMisuse e then .error (.settings e)
      else .ok ⟨1, problemLine c ("Invalid configuration: " ++ e.message), ""⟩ := by
  apply run_without_settings ha
  rw [loadSettings_of_file hconfig hp hw, hfile, reported]
  cases isMisuse e <;> rfl

/-- **A run with a file of settings** comes to an end exactly if the content of the file is no JSON
or has the shape of settings, and no table is drawn with a truth value whose glyph is no text.
Settings that have the shape and are wrong are reported. A run that comes to an end has the exit
code zero or one, and prints something.

The console is any that does what is relied on, and the glyphs that the file gives hold no markup.
An escape in the file gives no half of a pair of code units alone: that is part of what a file is
here (`Entry.file`). Limits of a machine, on nesting, digits, the depth of a recursion and memory,
are set aside. -/
theorem run_with_file (hc : c.Prints) (ha : Arguments.ofList arguments = .ok (.run a))
    (hconfig : a.config = some path) (hp : path ≠ "") (hw : w.entry path = .file content whole)
    (hm : ∀ s, Settings.ofFile content = .ok s → s.LacksMarkup) :
    ((∃ o, run c w arguments input = .ok o) ↔
      (∀ j, Json.readFile content = .ok j → Settings.IsShaped j) ∧
      ∀ s, Settings.ofFile content = .ok s → a.json = false →
        ∀ text ∈ textsShown a input, ∀ b, Shows s text b → ∃ g, s.glyph b = .str g) ∧
    (∀ e, Settings.ofFile content = .error e →
      (∀ j, Json.readFile content = .ok j → Settings.IsShaped j) →
        run c w arguments input =
          .ok ⟨1, problemLine c ("Invalid configuration: " ++ e.message), ""⟩) ∧
    ∀ o, run c w arguments input = .ok o →
      (o.code = 0 ∨ o.code = 1) ∧ o.output ≠ "" ∧ o.errors = "" := by
  rw [← isReported_ofFile_iff]
  cases hfile : Settings.ofFile content with
  | ok s =>
    have hs : loadSettings c w a = .ok (.ok (s.inStyle a.style)) := by
      rw [loadSettings_of_file hconfig hp hw, hfile]
      rfl
    refine ⟨?_, by simp, fun o ho => output_of_run hc ha hs ho⟩
    rw [run_ok_iff ha hs, and_iff_right isReported_ok]
    simp only [display_ok_iff hc (hm s hfile).inStyle, shows_inStyle, Settings.glyph_inStyle]
    constructor
    · rintro h _ ⟨⟩ hj text ht
      exact h text ht hj
    · intro h text ht hj
      exact h s rfl hj text ht
  | error e =>
    rw [run_of_wrong_file ha hconfig hp hw hfile, isReported_error_iff]
    cases isMisuse e with
    | true => simp
    | false => simp [problemLine, hc.line_ne_empty]

/-- A truth value in place of a limit is reported. -/
theorem run_with_file_wrong_limit :
    run .plain ⟨[], fun _ => .file "\x7b\"max_operators\":true\x7d" (by decide +kernel)⟩
        ["p", "--config", "c.json"] "" =
      .ok ⟨1, "❌ Invalid configuration: max_operators debe ser un entero, recibí True\n", ""⟩ := by
  have ha : Arguments.ofList ["p", "--config", "c.json"] =
      .ok (.run { formula := some "p", config := some "c.json" }) := by decide +kernel
  have hp : "c.json" ≠ "" := by decide
  have hplain : (Json.obj [("max_operators", .bool true)]).IsPlain :=
    .obj (by decide) fun m hm => List.mem_singleton.mp hm ▸ .bool true
  have hread : Json.readFile "\x7b\"max_operators\":true\x7d" =
      .ok (.obj [("max_operators", .bool true)]) :=
    hplain.readFile_write .compact (by decide +kernel) (by decide)
  have hfile : Settings.ofFile "\x7b\"max_operators\":true\x7d" =
      .error (.notAnInteger .maxOperators (.bool true)) := by
    rw [Settings.ofFile, hread]
    rfl
  have hshape : ∀ j, Json.readFile "\x7b\"max_operators\":true\x7d" = .ok j →
      Settings.IsShaped j := by
    rw [hread]
    rintro _ ⟨⟩
    refine ⟨_, rfl, fun m hm => ⟨.maxOperators, ?_⟩⟩
    rw [List.mem_singleton.mp hm]
    rfl
  have hm : ∀ s, Settings.ofFile "\x7b\"max_operators\":true\x7d" = .ok s → s.LacksMarkup := by
    rw [hfile]
    exact fun _ h => nomatch h
  have hline : problemLine .plain ("Invalid configuration: " ++
      (SettingsError.notAnInteger .maxOperators (.bool true)).message) =
        "❌ Invalid configuration: max_operators debe ser un entero, recibí True\n" := by
    decide +kernel
  rw [(run_with_file Console.plain_prints ha rfl hp rfl hm).2.1 _ hfile hshape, hline]

/-- A misspelt setting stops the run without a report. -/
theorem run_with_misspelt_setting :
    run .plain ⟨[], fun _ => .file "\x7b\"max_proposition\":8\x7d" (by decide +kernel)⟩
        ["p", "--config", "c.json"] "" =
      .error (.settings (.unknownKey "max_proposition")) := by
  have ha : Arguments.ofList ["p", "--config", "c.json"] =
      .ok (.run { formula := some "p", config := some "c.json" }) := by decide +kernel
  have hplain : (Json.obj [("max_proposition", .int 8)]).IsPlain :=
    .obj (by decide) fun m hm => List.mem_singleton.mp hm ▸ .int 8
  have hread : Json.readFile "\x7b\"max_proposition\":8\x7d" =
      .ok (.obj [("max_proposition", .int 8)]) :=
    hplain.readFile_write .compact (by decide +kernel) (by decide)
  have hfile : Settings.ofFile "\x7b\"max_proposition\":8\x7d" =
      .error (.unknownKey "max_proposition") := by
    rw [Settings.ofFile, hread]
    rfl
  have hp : "c.json" ≠ "" := by decide
  exact run_of_wrong_file ha rfl hp rfl hfile

end CommandLine
end Sentential
