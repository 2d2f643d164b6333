/-
# Settings supplied by the environment

All settings can be given by the environment, by texts: the name of the style, the limits in decimal
form, and the glyphs themselves. Each text may stand in its variable, whatever a file says of that
variable, or in the file alone. Nothing else is known of how a file is loaded than which variables
are set afterwards (`Environment.Completes`).

No such text is empty, so none is passed over, not even that of a limit of zero. And the settings
are made at once of all that is read, so that no glyph is compared with the default of the other.

Key definitions: `Environment.Completes`, `Environment.Supplies`, `Settings.text`.
Key theorems: `Text.integer?_toString`, `Environment.completes_completedBy`,
`Environment.Supplies.value?_eq`, `Settings.text_ne_empty`, `Settings.ofEnvironment_of_supplied`.
-/
import Sentential.Settings
import Sentential.Proofs.SavedSettings

namespace Sentential

namespace Text

variable {c : Char} {cs : List Char} {p : Char → Bool}

/-! ### Integers -/

theorem trim_of_forall (h : ∀ c ∈ cs, p c = false) : trim p cs = cs := by
  have hkeep : ∀ {ds : List Char}, (∀ d ∈ ds, p d = false) → ds.dropWhile p = ds := fun hds =>
    List.dropWhile_eq_self_iff.mpr fun hl => by simp [hds _ (List.getElem_mem hl)]
  rw [trim, hkeep h, hkeep fun d hd => h d (List.mem_reverse.mp hd), List.reverse_reverse]

theorem isPadding_of_isDigit (h : c.isDigit = true) : isPadding c = false := by
  have hc : 48 ≤ c.toNat ∧ c.toNat ≤ 57 := Char.isDigit_iff_toNat.mp h
  simp [isPadding, isBlank]
  omega

theorem digitValue?_of_isDigit (h : c.isDigit = true) :
    digitValue? c = some (c.toNat - '0'.toNat) := by
  have hc : 48 ≤ c.toNat ∧ c.toNat ≤ 57 := Char.isDigit_iff_toNat.mp h
  rw [digitValue?, if_pos (by omega), if_pos h]
  rfl

theorem digitsFrom_of_forall_isDigit (h : ∀ c ∈ cs, c.isDigit = true) (value : Nat) :
    digitsFrom value cs = some (Nat.ofDigitChars 10 cs value) := by
  induction cs generalizing value with
  | nil => rfl
  | cons c cs ih =>
    have hc : c.isDigit = true := h c (List.mem_cons_self ..)
    have hunderscore : c ≠ '_' := Json.ne_of_isDigit hc (by decide)
    have hcs := ih (fun d hd => h d (List.mem_cons_of_mem _ hd))
    rw [digitsFrom, digitValue?_of_isDigit hc, Nat.ofDigitChars_cons, Nat.mul_comm 10]
    · exact hcs _
    · exact fun _ _ hu => absurd hu hunderscore

theorem natural?_toDigits (n : Nat) : natural? (Nat.toDigits 10 n) = some n := by
  obtain ⟨c, cs, hn, hc⟩ := Json.exists_toDigits_eq_cons n
  have hcs : ∀ d ∈ cs, d.isDigit = true := fun d hd =>
    Nat.isDigit_of_mem_toDigits (by decide) (by decide) (hn ▸ List.mem_cons_of_mem c hd)
  have hvalue : Nat.ofDigitChars 10 (c :: cs) 0 = n := hn ▸ Nat.ofDigitChars_ten_toDigits
  rw [hn, natural?, digitValue?_of_isDigit hc]
  show digitsFrom _ cs = some n
  rw [digitsFrom_of_forall_isDigit hcs, ← hvalue, Nat.ofDigitChars_cons, Nat.mul_zero, Nat.zero_add]

/-- A number is read from its decimal form. -/
theorem integer?_toString (n : Nat) : integer? (toString n) = some (n : Int) := by
  have hdigits : (toString n).toList = Nat.toDigits 10 n := Nat.toList_repr
  have htrim : trim isPadding (Nat.toDigits 10 n) = Nat.toDigits 10 n := trim_of_forall fun d hd =>
    isPadding_of_isDigit (Nat.isDigit_of_mem_toDigits (by decide) (by decide) hd)
  have hread := natural?_toDigits n
  obtain ⟨c, cs, hn, hc⟩ := Json.exists_toDigits_eq_cons n
  have hne : ∀ d : Char, d.isDigit = false → c ≠ d := fun d hd => Json.ne_of_isDigit hc hd
  rw [integer?, hdigits, htrim]
  rw [hn] at hread ⊢
  split
  · next h => exact absurd (List.cons.inj h).1 (hne '-' (by decide))
  · next h => exact absurd (List.cons.inj h).1 (hne '+' (by decide))
  · rw [hread]
    rfl

end Text

namespace Environment

/-- Loading a file sets a variable to what the file says exactly if the environment does not have
it. -/
def Completes (load : Environment → Environment → Environment) : Prop :=
  ∀ env file name, (load env file).value? name = (env.value? name).or (file.value? name)

/-- The variable has the text in the environment, or it is only in the file and has it there. -/
def Supplies (env file : Environment) (name text : String) : Prop :=
  env.value? name = some text ∨ env.value? name = none ∧ file.value? name = some text

variable {load : Environment → Environment → Environment} {env file : Environment}
  {name text : String}

/-! ### Variables -/

theorem completes_completedBy : Completes completedBy := by
  intro env file name
  rw [value?, completedBy, List.find?_append, Option.map_or]
  rfl

theorem Supplies.value?_eq (h : Supplies env file name text) (hload : Completes load) :
    (load env file).value? name = some text := by
  rw [hload]
  rcases h with h | ⟨hnone, h⟩
  · rw [h, Option.some_or]
  · rw [hnone, Option.none_or, h]

end Environment

namespace Settings

/-- The text for the value of a setting: a text stands for itself, and an integer has its decimal
form. Settings with text glyphs have no other values. -/
def text (s : Settings) (key : Key) : String :=
  match s.value key with
  | .str text => text
  | .int n => toString n
  | _ => ""

variable {s : Settings} {env file : Environment} {key : Key} {given : String} {n : Nat}
  {load : Environment → Environment → Environment}

/-! ### Texts -/

theorem text_of_str {g : String} (h : s.value key = .str g) : s.text key = g := by
  rw [text, h]

theorem text_of_natCast (h : s.value key = .int n) : s.text key = toString n := by
  rw [text, h]
  rfl

/-- No setting has an empty text: not a limit of zero, and not a glyph, since it holds something. -/
theorem text_ne_empty (hg : s.HasTextGlyphs) (key : Key) : s.text key ≠ "" := by
  have hlimit : ∀ n : Nat, toString n ≠ "" := by
    intro n hn
    have hdigits : Nat.toDigits 10 n = [] := Nat.toList_repr.symm.trans (congrArg String.toList hn)
    exact Nat.toDigits_ne_nil hdigits
  have hglyph : ∀ {glyph : Json} {g : String}, glyph = .str g → glyph.isVacant = false → g ≠ "" := by
    rintro _ g rfl hheld rfl
    cases hheld
  cases key with
  | style =>
    rw [text_of_str rfl]
    cases s.style <;> decide
  | maxPropositions | maxOperators =>
    rw [text_of_natCast rfl]
    exact hlimit _
  | trueGlyph =>
    obtain ⟨g, h⟩ : ∃ g, s.value .trueGlyph = .str g := hg true
    rw [text_of_str h]
    exact hglyph h s.trueGlyph_held
  | falseGlyph =>
    obtain ⟨g, h⟩ : ∃ g, s.value .falseGlyph = .str g := hg false
    rw [text_of_str h]
    exact hglyph h s.falseGlyph_held

/-! ### Members -/

theorem given?_of_value? (h : env.value? key.variableName = some given) (hne : given ≠ "") :
    given? env key = some given := by
  rw [given?, h, Option.filter_some, if_pos (by simpa using hne)]

theorem textMember_eq {g : String} (h : given? env key = some (s.text key))
    (hvalue : s.value key = .str g) : textMember env key = [(key.name, s.value key)] := by
  rw [textMember, h, text_of_str hvalue, hvalue]

theorem integerMember_eq (h : given? env key = some (s.text key))
    (hvalue : s.value key = .int n) : integerMember env key = .ok [(key.name, s.value key)] := by
  rw [integerMember, h, text_of_natCast hvalue, hvalue]
  dsimp only
  rw [Text.integer?_toString]

/-- **Settings are what the environment supplies**, if it supplies the texts of all of them, each
in its variable or in a file that is loaded. A file may say anything of the variables that the
environment has. -/
theorem ofEnvironment_of_supplied (hg : s.HasTextGlyphs) (hload : Environment.Completes load)
    (h : ∀ key : Key, Environment.Supplies env file key.variableName (s.text key)) :
    ofEnvironment (load env file) = .ok s := by
  have hgiven : ∀ key : Key, given? (load env file) key = some (s.text key) := fun key =>
    given?_of_value? ((h key).value?_eq hload) (text_ne_empty hg key)
  obtain ⟨t, ht⟩ : ∃ g, s.value .trueGlyph = .str g := hg true
  obtain ⟨f, hf⟩ : ∃ g, s.value .falseGlyph = .str g := hg false
  simp only [ofEnvironment, integerMember_eq (hgiven .maxPropositions) rfl,
    integerMember_eq (hgiven .maxOperators) rfl, textMember_eq (hgiven .style) rfl,
    textMember_eq (hgiven .trueGlyph) ht, textMember_eq (hgiven .falseGlyph) hf, bind, Except.bind]
  exact s.ofMembers_members

/-- The two default glyphs in exchanged roles, a limit of zero and one beyond 64 bits, some of them
in the environment and the others in a file, which names another style. -/
theorem ofEnvironment_of_supplied_exchanged_glyphs :
    let s : Settings := { style := .latex, maxPropositions := 0,
                          maxOperators := 18446744073709551616,
                          trueGlyph := .str "0", falseGlyph := .str "1" }
    let env : Environment := [("TRUTHTABLE_TRUE_GLYPH", "0"), ("TRUTHTABLE_STYLE", "latex")]
    let file := Environment.ofLines ("TRUTHTABLE_STYLE=plain\nTRUTHTABLE_MAX_PROPOSITIONS=0\n" ++
      "TRUTHTABLE_MAX_OPERATORS=18446744073709551616\nTRUTHTABLE_FALSE_GLYPH=1\n")
    s.HasTextGlyphs ∧ Environment.Completes Environment.completedBy ∧
      (∀ key : Key, Environment.Supplies env file key.variableName (s.text key)) ∧
        ofEnvironment (env.completedBy file) = .ok s := by
  intro s env file
  have hg : s.HasTextGlyphs := fun b => by cases b <;> exact ⟨_, rfl⟩
  have hfile : file = [("TRUTHTABLE_FALSE_GLYPH", "1"),
      ("TRUTHTABLE_MAX_OPERATORS", "18446744073709551616"), ("TRUTHTABLE_MAX_PROPOSITIONS", "0"),
      ("TRUTHTABLE_STYLE", "plain")] := by decide +kernel
  have hsupplied : ∀ key : Key, Environment.Supplies env file key.variableName (s.text key) := by
    intro key
    rw [hfile]
    cases key with
    | style | trueGlyph => exact .inl (by decide +kernel)
    | maxPropositions | maxOperators | falseGlyph => exact .inr (by decide +kernel)
  exact ⟨hg, Environment.completes_completedBy, hsupplied,
    ofEnvironment_of_supplied hg Environment.completes_completedBy hsupplied⟩

end Settings
end Sentential
