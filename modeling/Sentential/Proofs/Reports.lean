/-
# Reports are read back

A report is written as a JSON object, without spaces or over several lines, and reading the text
gives the same report. The object has no floating-point numbers and no name twice, so the value is
read back; its containers are nested four deep at most, within the limit of the reader; and each
member is found under its name and stands for what was written.

Key definitions: `Json.IsPlainWithin`.
Key theorems: `Report.isPlainWithin_toJson`, `Report.ofJson?_toJson`, `Report.read?_write`,
`Report.read?_ofAnalysis`.
-/
import Sentential.CommandLine.Display
import Sentential.Proofs.Outcome
import Sentential.Proofs.PrintedJson
import Sentential.Report

namespace Sentential
namespace Json

/-- The value is plain, and its containers are nested `n` deep at most. -/
def IsPlainWithin (n : Nat) (j : Json) : Prop := j.IsPlain ∧ j.depth ≤ n

variable {n m : Nat} {j : Json} {xs : List Json} {ms : List (String × Json)}

theorem IsPlainWithin.mono (h : j.IsPlainWithin n) (hn : n ≤ m) : j.IsPlainWithin m :=
  ⟨h.1, Nat.le_trans h.2 hn⟩

theorem isPlainWithin_null : null.IsPlainWithin n := ⟨.null, Nat.zero_le n⟩

theorem isPlainWithin_bool (b : Bool) : (bool b).IsPlainWithin n := ⟨.bool b, Nat.zero_le n⟩

theorem isPlainWithin_int (i : Int) : (int i).IsPlainWithin n := ⟨.int i, Nat.zero_le n⟩

theorem isPlainWithin_str (s : String) : (str s).IsPlainWithin n := ⟨.str s, Nat.zero_le n⟩

theorem isPlainWithin_arr (h : ∀ x ∈ xs, IsPlainWithin n x) : (arr xs).IsPlainWithin (n + 1) := by
  have hdepth : depthOfElements xs ≤ n := by
    induction xs with
    | nil => exact Nat.zero_le _
    | cons x xs ih =>
      exact Nat.max_le.mpr ⟨(h x (List.mem_cons_self ..)).2,
        ih fun y hy => h y (List.mem_cons_of_mem _ hy)⟩
  refine ⟨.arr fun x hx => (h x hx).1, ?_⟩
  cases xs with
  | nil => exact Nat.zero_le _
  | cons x xs => exact Nat.succ_le_succ hdepth

theorem isPlainWithin_obj (hn : (ms.map Prod.fst).Nodup) (h : ∀ m ∈ ms, IsPlainWithin n m.2) :
    (obj ms).IsPlainWithin (n + 1) := by
  have hdepth : depthOfMembers ms ≤ n := by
    clear hn
    induction ms with
    | nil => exact Nat.zero_le _
    | cons m ms ih =>
      exact Nat.max_le.mpr ⟨(h m (List.mem_cons_self ..)).2,
        ih fun m' hm => h m' (List.mem_cons_of_mem _ hm)⟩
  refine ⟨.obj hn fun m hm => (h m hm).1, ?_⟩
  cases ms with
  | nil => exact Nat.zero_le _
  | cons m ms => exact Nat.succ_le_succ hdepth

end Json

namespace Report

open Json

variable {s : Settings} {text : String} {a : Analysis} {n : Nat}

/-! ### What is written -/

theorem isPlainWithin_optional {α : Type} {toJson : α → Json}
    (h : ∀ x, (toJson x).IsPlainWithin n) : ∀ x : Option α, (optional toJson x).IsPlainWithin n
  | none => isPlainWithin_null
  | some x => h x

theorem isPlainWithin_map {α : Type} {toJson : α → Json} (h : ∀ x, (toJson x).IsPlainWithin n)
    (xs : List α) : (Json.arr (xs.map toJson)).IsPlainWithin (n + 1) := by
  refine isPlainWithin_arr fun j hj => ?_
  obtain ⟨x, -, rfl⟩ := List.mem_map.mp hj
  exact h x

theorem Validation.isPlainWithin_toJson (v : Validation) : v.toJson.IsPlainWithin 1 := by
  refine isPlainWithin_obj (by simp) fun m hm => ?_
  simp only [List.mem_cons, List.not_mem_nil, or_false] at hm
  rcases hm with rfl | rfl | rfl
  · exact isPlainWithin_bool _
  · exact isPlainWithin_optional isPlainWithin_str _
  · exact isPlainWithin_optional isPlainWithin_int _

theorem Sheet.isPlainWithin_toJson (s : Sheet) : s.toJson.IsPlainWithin 3 := by
  have htexts : ∀ names : List String, (texts names).IsPlainWithin 2 :=
    isPlainWithin_map isPlainWithin_str
  refine isPlainWithin_obj (by simp) fun m hm => ?_
  simp only [List.mem_cons, List.not_mem_nil, or_false] at hm
  rcases hm with rfl | rfl | rfl
  · exact htexts _
  · exact htexts _
  · exact isPlainWithin_map (isPlainWithin_map isPlainWithin_bool) _

/-- A report is written without floating-point numbers, no name comes twice, and what it holds is
not nested deeper than reports are read. -/
theorem isPlainWithin_toJson (r : Report) : r.toJson.IsPlainWithin depthLimit := by
  have hwithin : r.toJson.IsPlainWithin 4 := by
    refine isPlainWithin_obj (by simp) fun m hm => ?_
    simp only [List.mem_cons, List.not_mem_nil, or_false] at hm
    rcases hm with rfl | rfl | rfl | rfl
    · exact isPlainWithin_str _
    · exact isPlainWithin_str _
    · exact r.validation.isPlainWithin_toJson.mono (by decide)
    · exact isPlainWithin_optional Sheet.isPlainWithin_toJson _
  exact hwithin.mono (by decide)

/-! ### What is read -/

theorem readList?_map {α : Type} {toJson : α → Json} {read? : Json → Option α}
    (h : ∀ x, read? (toJson x) = some x) (xs : List α) :
    readList? read? (.arr (xs.map toJson)) = some xs := by
  have hxs : xs.mapM (read? ∘ toJson) = some (xs.map id) := mapM_eq_pure fun x _ => h x
  rw [readList?, List.mapM_map, hxs, List.map_id]

theorem readOptional?_optional {α : Type} {toJson : α → Json} {read? : Json → Option α}
    (h : ∀ x, read? (toJson x) = some x) (hnull : ∀ x, toJson x ≠ .null) (x : Option α) :
    readOptional? read? (optional toJson x) = some x := by
  cases x with
  | none => rfl
  | some x =>
    rw [optional, readOptional?, h]
    · rfl
    · exact hnull x

theorem Validation.ofJson?_toJson (v : Validation) : Validation.ofJson? v.toJson = some v := by
  have hstr : ∀ s, readString? (.str s) = some s := fun _ => rfl
  have hint : ∀ i, readInt? (.int i) = some i := fun _ => rfl
  have herror := readOptional?_optional hstr (fun _ => nofun) v.error
  have hposition := readOptional?_optional hint (fun _ => nofun) v.position
  simp [Validation.ofJson?, Validation.toJson, required?, withDefault?, member?, memberOf?,
    readTruth?, herror, hposition]

theorem Sheet.ofJson?_toJson (s : Sheet) : Sheet.ofJson? s.toJson = some s := by
  have hstr : ∀ s, readString? (.str s) = some s := fun _ => rfl
  have hbool : ∀ b, readTruth? (.bool b) = some b := fun _ => rfl
  have htexts : ∀ names, readList? readString? (texts names) = some names := readList?_map hstr
  have hrows := readList?_map (readList?_map hbool) s.rows
  simp [Sheet.ofJson?, Sheet.toJson, required?, member?, memberOf?, htexts, hrows]

/-- The object that is written stands for the report. -/
theorem ofJson?_toJson (r : Report) : ofJson? r.toJson = some r := by
  have htable : readOptional? Sheet.ofJson? (optional Sheet.toJson r.table) = some r.table :=
    readOptional?_optional Sheet.ofJson?_toJson (fun _ => nofun) _
  simp [ofJson?, toJson, required?, withDefault?, member?, memberOf?, readString?,
    r.validation.ofJson?_toJson, htable]

/-- A report is read back from what is written, if nothing but spaces follows it. -/
theorem read?_write (r : Report) (layout : Layout) {rest : List Char}
    (hrest : ∀ c ∈ rest, isSpace c = true) :
    read? (String.ofList (r.toJson.write layout 0 ++ rest)) = some r := by
  obtain ⟨hplain, hdepth⟩ := r.isPlainWithin_toJson
  have hhalf : hasLoneHalf (r.toJson.write layout 0 ++ rest) = false := by
    have hnot : '\\' ∉ rest := fun h => absurd (hrest _ h) (by decide)
    have hrest := isWhole_of_notMem hnot []
    rw [List.append_nil] at hrest
    rw [hplain.isWhole_write layout 0 rest, hrest]
    rfl
  rw [read?, String.toList_ofList, hplain.read_write layout hrest]
  simp only [hhalf, Bool.false_or, decide_eq_true_eq, Nat.not_lt.mpr hdepth, if_false,
    ofJson?_toJson]

/-- **A report survives its JSON form.** Whatever the text and the settings, if the text can be
analysed, its report is read back from its compact form, from the form over several lines, and from
what the command prints of it, on any console. -/
theorem read?_ofAnalysis (h : Analysis.ofText s text = .ok a) :
    read? (ofAnalysis a).toJson.compact = some (ofAnalysis a) ∧
    read? (ofAnalysis a).toJson.pretty = some (ofAnalysis a) ∧
    ∀ c : CommandLine.Console, ∃ shown, CommandLine.display c s true text = .ok shown ∧
      read? shown.output = some (ofAnalysis a) := by
  have hread : ∀ layout, read? (String.ofList ((ofAnalysis a).toJson.write layout 0)) =
      some (ofAnalysis a) := by
    intro layout
    have := (ofAnalysis a).read?_write layout (List.forall_mem_nil _)
    rwa [List.append_nil] at this
  refine ⟨hread .compact, hread .indented, fun c => ?_⟩
  have hdisplay : CommandLine.display c s true text =
      .ok ⟨(ofAnalysis a).toJson.pretty ++ "\n", a.verdict.isAccepted⟩ := by
    rw [CommandLine.display, h]
    rfl
  have hline : (ofAnalysis a).toJson.pretty ++ "\n" =
      String.ofList ((ofAnalysis a).toJson.write .indented 0 ++ ['\n']) := by
    rw [String.ofList_append]
    rfl
  refine ⟨_, hdisplay, ?_⟩
  rw [hline]
  exact (ofAnalysis a).read?_write .indented (List.forall_mem_singleton.mpr rfl)

/-- The report on a negation that is typeset, with a backslash in its preview and a header, is read
back from the text that is written. -/
theorem read?_ofAnalysis_typeset :
    ∃ a, Analysis.ofText { style := .latex } "!p" = .ok a ∧
      (ofAnalysis a).preview = "$\\neg P$" ∧
      read? (ofAnalysis a).toJson.compact = some (ofAnalysis a) := by
  have ha : Analysis.ofText { style := .latex } "!p" = .ok ⟨"!p", .accepted, some ⟨.latex, ["P"],
      [⟨"P", #[false, true]⟩, ⟨"\\neg P", #[true, false]⟩]⟩, "$\\neg P$"⟩ := by
    decide +kernel
  exact ⟨_, ha, rfl, (read?_ofAnalysis ha).1⟩

end Report
end Sentential
