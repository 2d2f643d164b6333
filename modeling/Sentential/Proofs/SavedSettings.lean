/-
# Saved settings

Settings are kept as one member for each key, and from these members they are made again: each value
is found by its name, passes the check of its setting and is what the setting was. This holds of all
settings, and so settings also change into others when the members are replaced in which the two
differ. That the members survive the file depends on the glyphs, since any value that holds
something is allowed as one; where both are texts, what is printed is read back. No carriage return
is printed, not even of a glyph that holds one, so the line feeds that stand between members are the
only line ends in the file, and it may be kept with any other ones.

Key definitions: `Settings.value`.
Key theorems: `Settings.memberOf?_keyed`, `Settings.ofMembers_members`, `Settings.replace_eq`,
`Settings.replace_style`, `Settings.isPlain_members`, `Settings.ofFile_fileContent`.
-/
import Sentential.Settings
import Sentential.Proofs.Configuration

namespace Sentential

namespace Settings

/-- The value that is kept for a key. -/
def value (s : Settings) : Key → Json
  | .style => .str s.style.name
  | .maxPropositions => .int s.maxPropositions
  | .maxOperators => .int s.maxOperators
  | .trueGlyph => s.trueGlyph
  | .falseGlyph => s.falseGlyph

variable {s s' : Settings} {key : Key} {keys : List Key} {f : Key → Json}

/-! ### Values -/

theorem readStyle_name (style : Style) : readStyle (.str style.name) = .ok style := by
  have hlower : String.ofList (style.name.toList.map Char.toLower) = style.name := by
    cases style <;> decide
  rw [readStyle, hlower, Style.ofName?_name]

theorem readLimit_natCast (key : Key) (n : Nat) : readLimit key (.int n) = .ok n := by
  rw [readLimit, if_neg (by omega), Int.toNat_natCast]

theorem withGlyphs_glyphs (s : Settings) :
    withGlyphs s.style s.maxPropositions s.maxOperators s.trueGlyph s.falseGlyph = .ok s := by
  rw [withGlyphs, dif_pos ⟨s.trueGlyph_held, s.falseGlyph_held⟩, dif_pos s.glyphs_differ]

/-! ### Members -/

theorem Key.mem_all (key : Key) : key ∈ Key.all := by cases key <;> decide

theorem Key.nodup_names : (Key.all.map Key.name).Nodup := by decide

theorem Key.name_injective : Function.Injective Key.name := fun _ _ h =>
  List.inj_on_of_nodup_map Key.nodup_names (Key.mem_all _) (Key.mem_all _) h

/-- Among members for some keys, the value for a key is found by its name. -/
theorem memberOf?_keyed : Json.memberOf? (keys.map fun k => (k.name, f k)) key.name =
    if key ∈ keys then some (f key) else none := by
  induction keys with
  | nil => rfl
  | cons k keys ih =>
    rw [Json.memberOf?] at ih ⊢
    rw [List.map_cons, List.find?_cons]
    by_cases h : k = key
    · simp [h]
    · have hname : k.name ≠ key.name := fun hn => h (Key.name_injective hn)
      have hkey : key ≠ k := Ne.symm h
      simp only [hname, decide_false, ih, List.mem_cons, hkey, false_or]

theorem checkNames_keyed : checkNames ((keys.map fun k => (k.name, f k)).map Prod.fst) = .ok () := by
  refine CommandLine.checkNames_ok_iff.mpr fun name hn => ?_
  obtain ⟨m, hm, rfl⟩ := List.mem_map.mp hn
  obtain ⟨key, -, rfl⟩ := List.mem_map.mp hm
  exact ⟨key, rfl⟩

theorem ofMembers_keyed (s : Settings) (hall : ∀ key, key ∈ keys) :
    ofMembers (keys.map fun key => (key.name, s.value key)) = .ok s := by
  simp only [ofMembers, checkNames_keyed, memberOf?_keyed, hall, if_true, Option.getD_some, value,
    readStyle_name, readLimit_natCast, withGlyphs_glyphs, bind, Except.bind]

theorem members_eq (s : Settings) :
    s.members = Key.all.map fun key => (key.name, s.value key) :=
  rfl

/-- **Settings are what their members give**, whatever their glyphs are. -/
theorem ofMembers_members (s : Settings) : ofMembers s.members = .ok s :=
  s.ofMembers_keyed Key.mem_all

/-- **Replacing members** of settings by those of others, where these differ, gives the others. -/
theorem replace_eq (h : ∀ key ∉ keys, s.value key = s'.value key) :
    s.replace (keys.map fun key => (key.name, s'.value key)) = .ok s' := by
  have hkept : (s.members.filter fun m =>
      (Json.memberOf? (keys.map fun key => (key.name, s'.value key)) m.1).isNone) =
        (Key.all.filter (· ∉ keys)).map fun key => (key.name, s'.value key) := by
    rw [members_eq, List.filter_map]
    have hfilter : (Key.all.filter ((fun m : String × Json =>
        (Json.memberOf? (keys.map fun key => (key.name, s'.value key)) m.1).isNone) ∘
          fun key => (key.name, s.value key))) = Key.all.filter (· ∉ keys) := by
      refine List.filter_congr fun key _ => ?_
      rw [Function.comp_apply, memberOf?_keyed]
      by_cases hkey : key ∈ keys <;> simp [hkey]
    rw [hfilter]
    refine List.map_congr_left fun key hkey => ?_
    rw [h key (by simpa using (List.mem_filter.mp hkey).2)]
  rw [replace, hkept, ← List.map_append]
  refine s'.ofMembers_keyed fun key => ?_
  by_cases hkey : key ∈ keys
  · exact List.mem_append_left _ hkey
  · exact List.mem_append_right _ (List.mem_filter.mpr ⟨Key.mem_all key, by simpa using hkey⟩)

/-- Replacing the style gives the settings in another style. -/
theorem replace_style (s : Settings) (style : Style) :
    s.replace [(Key.style.name, .str style.name)] = .ok (s.withStyle style) := by
  have h : ∀ key ∉ [Key.style], s.value key = (s.withStyle style).value key := by
    intro key hkey
    cases key with
    | style => exact absurd (List.mem_singleton_self _) hkey
    | maxPropositions | maxOperators | trueGlyph | falseGlyph => rfl
  exact replace_eq h

/-! ### The file -/

theorem isPlain_glyph (h : s.HasTextGlyphs) (b : Bool) : (s.glyph b).IsPlain := by
  obtain ⟨g, hg⟩ := h b
  rw [hg]
  exact .str g

/-- Where the glyphs are texts, no value is a floating-point number. -/
theorem isPlain_members (h : s.HasTextGlyphs) : (Json.obj s.members).IsPlain := by
  refine .obj Key.nodup_names fun m hm => ?_
  obtain ⟨key, -, rfl⟩ := List.mem_map.mp (s.members_eq ▸ hm)
  cases key with
  | style => exact .str _
  | maxPropositions | maxOperators => exact .int _
  | trueGlyph => exact isPlain_glyph h true
  | falseGlyph => exact isPlain_glyph h false

theorem toList_fileContent (s : Settings) :
    s.fileContent.toList = (Json.obj s.members).write .indented 0 :=
  String.toList_ofList

/-- **Settings survive their file**, if both glyphs are texts: the style, the limits and the glyphs
that are read are those that were written, whatever characters the glyphs hold. This is so also if
the file has come to be kept with other line ends. -/
theorem ofFile_fileContent (h : s.HasTextGlyphs) :
    ofFile s.fileContent = .ok s ∧
      ∀ content : String, Text.unifyLineEnds content.toList = s.fileContent.toList →
        ofFile content = .ok s := by
  have hplain := isPlain_members h
  have hread : ∀ content : String, Text.unifyLineEnds content.toList = s.fileContent.toList →
      ofFile content = .ok s := by
    intro content hc
    rw [toList_fileContent] at hc
    rw [ofFile, hplain.readFile_of_unifyLineEnds .indented hc]
    exact s.ofMembers_members
  refine ⟨hread s.fileContent (Text.unifyLineEnds_of_notMem ?_), hread⟩
  rw [toList_fileContent]
  exact hplain.return_notMem_write .indented 0

/-- A quote, a backslash and a carriage return in a glyph are escaped, and a character beyond the
first plane is kept as it is, in a file with two characters at the end of each line. -/
theorem ofFile_fileContent_escaped_glyph :
    let s : Settings := { style := .latex, maxPropositions := 0, maxOperators := 4096,
                          trueGlyph := .str "\"\\\r", falseGlyph := .str "𝔽" }
    let content := "\x7b\r\n  \"style\": \"latex\",\r\n  \"max_propositions\": 0,\r\n" ++
      "  \"max_operators\": 4096,\r\n  \"true_glyph\": \"\\\"\\\\\\r\",\r\n" ++
      "  \"false_glyph\": \"𝔽\"\r\n\x7d"
    s.HasTextGlyphs ∧ Text.unifyLineEnds content.toList = s.fileContent.toList ∧
      ofFile s.fileContent = .ok s ∧ ofFile content = .ok s := by
  intro s content
  have hg : s.HasTextGlyphs := fun b => by cases b <;> exact ⟨_, rfl⟩
  have hc : Text.unifyLineEnds content.toList = s.fileContent.toList := by
    rw [toList_fileContent, String.toList_append, String.toList_append]
    decide +kernel
  exact ⟨hg, hc, (ofFile_fileContent hg).1, (ofFile_fileContent hg).2 content hc⟩

end Settings
end Sentential
