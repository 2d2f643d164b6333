/-
# Printed values are read back

A value is printed in one of two layouts, and what is printed is read as the value, whatever follows
that could not go on with a number. Texts come back because each character, escaped or not, is read
as itself; integers, because their digits have no leading zero and end before what follows; arrays
and objects, because an element begins with no space and no bracket that closes. A floating-point
number may not come back as itself, and of two members with one name only one does, so neither is
allowed here.

In what is printed no half of a pair of code units stands alone, and there is no carriage return.
Such properties pass from the parts of a text to the text, so they are only to be known of the
characters.

Key definitions: `Json.IsPlain`, `Json.EndsNumber`, `Json.ReadsBack`, `Json.IsWhole`,
`Json.Composes`.
Key theorems: `Json.readText_write`, `Json.readNumber?_writeInt`, `Json.readElements_write`,
`Json.readMembers_write`, `Json.IsPlain.readsBack`, `Json.IsPlain.read_write`,
`Json.IsPlain.readFile_of_unifyLineEnds`, `Json.IsPlain.readFile_write`, `Json.Composes.write`,
`Json.IsPlain.isWhole_write`, `Json.IsPlain.return_notMem_write`.
-/
import Sentential.Json.Printer
import Sentential.Json.Reader
import Mathlib

namespace Sentential
namespace Json

/-- A value without floating-point numbers, in whose objects no name comes twice. -/
inductive IsPlain : Json → Prop
  | null : IsPlain .null
  | bool (b : Bool) : IsPlain (.bool b)
  | int (n : Int) : IsPlain (.int n)
  | str (s : String) : IsPlain (.str s)
  | arr {xs : List Json} (h : ∀ x ∈ xs, IsPlain x) : IsPlain (.arr xs)
  | obj {ms : List (String × Json)} (hn : (ms.map Prod.fst).Nodup) (h : ∀ m ∈ ms, IsPlain m.2) :
      IsPlain (.obj ms)

/-- What is left of a text does not go on with a number that stands before it. -/
def EndsNumber (rest : List Char) : Prop :=
  (rest.headD ' ').isDigit = false ∧ rest.headD ' ' ∉ ['.', 'e', 'E']

/-- The value is read from what is printed of it, at any level and before anything that ends
numbers. The count is sufficient if there are two steps for each character. -/
def ReadsBack (layout : Layout) (j : Json) : Prop :=
  ∀ (depth count : Nat) (rest : List Char), EndsNumber rest →
    2 * (j.write layout depth).length ≤ count →
      readValue count (j.write layout depth ++ rest) = .ok (j, rest)

/-- In what comes before any text, no half of a pair of code units stands alone, and no escape is
left open. -/
def IsWhole (cs : List Char) : Prop := ∀ rest, hasLoneHalf (cs ++ rest) = hasLoneHalf rest

/-- The property passes from parts to the whole, and holds of each character as it stands inside a
text, and on its own if it is neither a backslash nor a carriage return. -/
structure Composes (P : List Char → Prop) : Prop where
  nil : P []
  append : ∀ {cs cs'}, P cs → P cs' → P (cs ++ cs')
  inside : ∀ c, P (writeChar c)
  outside : ∀ c, c ≠ '\\' → c ≠ '\r' → P [c]

variable {P : List Char → Prop} {layout : Layout} {j x : Json} {xs : List Json} {name : String}
  {ms : List (String × Json)} {c : Char} {cs rest opening : List Char} {depth count n : Nat}

/-! ### Texts -/

theorem hexValue?_hexDigit : ∀ n < 16, hexValue? (hexDigit n) = some n := by decide

/-- The characters that are escaped by a letter. -/
def escapedByLetter : List Char := ['"', '\\', '\n', '\r', '\t', '\x08', '\x0c']

theorem writeChar_of_control (h : c ∉ escapedByLetter) (hc : c.toNat < 32) : writeChar c =
    ['\\', 'u', '0', '0', hexDigit (c.toNat / 16), hexDigit (c.toNat % 16)] := by
  simp only [escapedByLetter, List.mem_cons, List.not_mem_nil, or_false, not_or] at h
  simp [writeChar, h, hc]

theorem writeChar_of_plain (h : c ∉ escapedByLetter) (hc : ¬ c.toNat < 32) : writeChar c = [c] := by
  simp only [escapedByLetter, List.mem_cons, List.not_mem_nil, or_false, not_or] at h
  simp [writeChar, h, hc]

theorem hexValue4?_control (hc : c.toNat < 32) :
    hexValue4? '0' '0' (hexDigit (c.toNat / 16)) (hexDigit (c.toNat % 16)) = some c.toNat := by
  have hzero : hexValue? '0' = some 0 := rfl
  have hhigh := hexValue?_hexDigit (c.toNat / 16) (by omega)
  have hlow := hexValue?_hexDigit (c.toNat % 16) (by omega)
  simp only [hexValue4?, hzero, hhigh, hlow, Option.bind_eq_bind, Option.bind_some,
    Option.pure_def]
  congr 1
  omega

theorem readUnits_writeChar (h : rest ≠ []) : readUnits opening (writeChar c ++ rest) =
    consUnit c.toNat (readUnits opening rest) := by
  obtain ⟨r, rest, rfl⟩ := List.exists_cons_of_ne_nil h
  by_cases hl : c ∈ escapedByLetter
  · simp only [escapedByLetter, List.mem_cons, List.not_mem_nil, or_false] at hl
    rcases hl with rfl | rfl | rfl | rfl | rfl | rfl | rfl <;> rfl
  · by_cases hc : c.toNat < 32
    · rw [writeChar_of_control hl hc]
      simp only [List.cons_append, List.nil_append]
      rw [readUnits]
      exact hexValue4?_control hc
    · rw [writeChar_of_plain hl hc, List.singleton_append]
      simp only [escapedByLetter, List.mem_cons, List.not_mem_nil, or_false, not_or] at hl
      rw [readUnits.eq_def]
      split <;> simp_all

theorem readUnits_flatMap (cs rest : List Char) :
    readUnits opening (cs.flatMap writeChar ++ '"' :: rest) = .ok (cs.map Char.toNat, rest) := by
  induction cs with
  | nil => rfl
  | cons c cs ih =>
    rw [List.flatMap_cons, List.append_assoc, readUnits_writeChar (by simp), ih]
    rfl

theorem joinUnits_cons (c : Char) (units : List Nat) :
    joinUnits (c.toNat :: units) = c :: joinUnits units := by
  have hv : ¬ (0xD800 ≤ c.toNat ∧ c.toNat < 0xE000) := by
    have := c.valid
    simp only [UInt32.isValidChar, Nat.isValidChar] at this
    show ¬ (0xD800 ≤ c.val.toNat ∧ c.val.toNat < 0xE000)
    omega
  cases units with
  | nil => rw [joinUnits, if_neg hv, Char.ofNat_toNat, joinUnits]
  | cons unit units =>
    have hpair : ¬ (0xD800 ≤ c.toNat ∧ c.toNat < 0xDC00 ∧ 0xDC00 ≤ unit ∧ unit < 0xE000) := by omega
    rw [joinUnits, if_neg hpair, if_neg hv, Char.ofNat_toNat]

theorem joinUnits_map (cs : List Char) : joinUnits (cs.map Char.toNat) = cs := by
  induction cs with
  | nil => rfl
  | cons c cs ih => rw [List.map_cons, joinUnits_cons, ih]

/-- A text is read up to its closing quote. -/
theorem readText_write (s : String) (rest : List Char) :
    readText opening (s.toList.flatMap writeChar ++ '"' :: rest) = .ok (s, rest) := by
  rw [readText, readUnits_flatMap]
  show Except.ok (String.ofList (joinUnits (s.toList.map Char.toNat)), rest) = _
  rw [joinUnits_map, String.ofList_toList]

/-! ### Integers -/

theorem exists_toDigits_eq (h : 0 < n) : ∃ c cs, Nat.toDigits 10 n = c :: cs ∧ c ≠ '0' := by
  induction n using Nat.strongRecOn with
  | ind n ih =>
    rw [Nat.toDigits_eq_if (by decide)]
    split_ifs with hlt
    · have hdigit : ∀ m < 10, 0 < m → m.digitChar ≠ '0' := by decide
      exact ⟨_, _, rfl, hdigit n hlt h⟩
    · obtain ⟨c, cs, hc, hne⟩ := ih (n / 10) (by omega) (by omega)
      rw [hc]
      exact ⟨c, _, rfl, hne⟩

theorem EndsNumber.split (h : EndsNumber rest) : rest.takeWhile Char.isDigit = [] ∧
    rest.dropWhile Char.isDigit = rest ∧ splitFraction rest = ([], rest) ∧
    splitExponent rest = (none, rest) := by
  obtain ⟨hd, hm⟩ := h
  cases rest with
  | nil => exact ⟨rfl, rfl, rfl, rfl⟩
  | cons c rest =>
    simp only [List.headD_cons, List.mem_cons, List.not_mem_nil, or_false, not_or] at hd hm
    obtain ⟨hpoint, he, hE⟩ := hm
    refine ⟨by simp [hd], by simp [hd], ?_, by simp [splitExponent, he, hE]⟩
    rw [splitFraction]
    exact fun cs h => absurd (List.cons.inj h).1 hpoint

theorem splitInteger?_toDigits (h : EndsNumber rest) :
    splitInteger? (Nat.toDigits 10 n ++ rest) = some (Nat.toDigits 10 n, rest) := by
  obtain ⟨htake, hdrop, -, -⟩ := h.split
  rcases Nat.eq_zero_or_pos n with rfl | hn
  · rfl
  · obtain ⟨c, cs, hc, hne⟩ := exists_toDigits_eq hn
    have hdigits : ∀ d ∈ c :: cs, d.isDigit = true := fun d hd =>
      Nat.isDigit_of_mem_toDigits (by decide) (by decide) (hc ▸ hd)
    have hcs : ∀ d ∈ cs, d.isDigit = true := fun d hd => hdigits d (List.mem_cons_of_mem _ hd)
    rw [hc, List.cons_append, splitInteger?, if_neg hne, if_pos (hdigits c (List.mem_cons_self ..)),
      List.takeWhile_append_of_pos hcs, List.dropWhile_append_of_pos hcs, htake, hdrop,
      List.append_nil]

theorem readMagnitude?_toDigits (negative : Bool) (h : EndsNumber rest) :
    readMagnitude? negative (Nat.toDigits 10 n ++ rest) =
      some (int (if negative then -(n : Int) else n), rest) := by
  obtain ⟨-, -, hfraction, hexponent⟩ := h.split
  have hvalue : digitsValue (Nat.toDigits 10 n) = n := Nat.ofDigitChars_ten_toDigits
  rw [readMagnitude?, splitInteger?_toDigits h, Option.map_some]
  simp only [hfraction, hexponent, hvalue, and_self, if_true]

theorem exists_toDigits_eq_cons (n : Nat) :
    ∃ c cs, Nat.toDigits 10 n = c :: cs ∧ c.isDigit = true := by
  obtain ⟨c, cs, hc⟩ := List.exists_cons_of_ne_nil (Nat.toDigits_ne_nil (n := n) (b := 10))
  have hm : c ∈ Nat.toDigits 10 n := hc ▸ List.mem_cons_self ..
  exact ⟨c, cs, hc, Nat.isDigit_of_mem_toDigits (by decide) (by decide) hm⟩

theorem exists_writeInt_eq (n : Int) : ∃ c cs, c.isDigit = true ∧
    (writeInt n = c :: cs ∨ writeInt n = '-' :: c :: cs) := by
  cases n with
  | ofNat n =>
    obtain ⟨c, cs, h, hc⟩ := exists_toDigits_eq_cons n
    exact ⟨c, cs, hc, .inl h⟩
  | negSucc n =>
    obtain ⟨c, cs, h, hc⟩ := exists_toDigits_eq_cons (n + 1)
    exact ⟨c, cs, hc, .inr (congrArg (List.cons '-') h)⟩

theorem ne_of_isDigit {d : Char} (hc : c.isDigit = true) (hd : d.isDigit = false) : c ≠ d := by
  rintro rfl
  rw [hc] at hd
  cases hd

/-- The number that is read from an integer is the integer. -/
theorem readNumber?_writeInt (n : Int) (h : EndsNumber rest) :
    readNumber? (writeInt n ++ rest) = some (int n, rest) := by
  cases n with
  | ofNat n =>
    obtain ⟨c, cs, hn, hc⟩ := exists_toDigits_eq_cons n
    have hread := readMagnitude?_toDigits (n := n) false h
    have hminus : c ≠ '-' := ne_of_isDigit hc (by decide)
    rw [writeInt, hn, List.cons_append, readNumber?]
    · rwa [hn] at hread
    · exact fun cs h => absurd (List.cons.inj h).1 hminus
  | negSucc n => exact readMagnitude?_toDigits (n := n + 1) true h

theorem readValue_of_isDigit (hc : c.isDigit = true) {read : Json × List Char} :
    (readNumber? (c :: cs) = some read → readValue (count + 1) (c :: cs) = .ok read) ∧
    (readNumber? ('-' :: c :: cs) = some read →
      readValue (count + 1) ('-' :: c :: cs) = .ok read) := by
  have hne : ∀ d : Char, d.isDigit = false → c ≠ d := fun d hd => ne_of_isDigit hc hd
  constructor
  · intro h
    rw [readValue.eq_def]
    split <;> simp_all
  · intro h
    rw [readValue.eq_def]
    split <;> simp_all

theorem readValue_writeInt (n : Int) (h : EndsNumber rest) :
    readValue (count + 1) (writeInt n ++ rest) = .ok (int n, rest) := by
  have hread := readNumber?_writeInt n h
  obtain ⟨c, cs, hc, hn | hn⟩ := exists_writeInt_eq n
  · rw [hn] at hread ⊢
    exact (readValue_of_isDigit hc).1 hread
  · rw [hn] at hread ⊢
    exact (readValue_of_isDigit hc).2 hread

/-! ### Arrays and objects -/

theorem skip_gap (layout : Layout) (depth : Nat) (cs : List Char) :
    skip (layout.gap depth ++ cs) = skip cs := by
  cases layout with
  | compact => rfl
  | indented =>
    have hspaces : ∀ d ∈ Layout.gap .indented depth, isSpace d = true := by
      intro d hd
      rcases List.mem_cons.mp hd with rfl | hd
      · rfl
      · rw [List.eq_of_mem_replicate hd]
        rfl
    exact List.dropWhile_append_of_pos hspaces

theorem skip_cons (h : isSpace c = false) : skip (c :: cs) = c :: cs := by
  rw [skip, List.dropWhile_cons_of_neg (by simp [h])]

/-- What is printed of a value begins with no space, with no bracket that closes and with no byte
order mark. -/
theorem IsPlain.exists_write_eq (h : j.IsPlain) (layout : Layout) (depth : Nat) :
    ∃ c cs, j.write layout depth = c :: cs ∧ isSpace c = false ∧ c ≠ ']' ∧ c ≠ '\uFEFF' := by
  cases h with
  | null => exact ⟨_, _, rfl, rfl, by decide, by decide⟩
  | bool b => cases b <;> exact ⟨_, _, rfl, rfl, by decide, by decide⟩
  | int n =>
    obtain ⟨c, cs, hc, hn | hn⟩ := exists_writeInt_eq n
    · have hne : ∀ d : Char, d.isDigit = false → c ≠ d := fun d hd => ne_of_isDigit hc hd
      exact ⟨c, cs, hn, by simp [isSpace, hne], hne _ (by decide), hne _ (by decide)⟩
    · exact ⟨'-', _, hn, rfl, by decide, by decide⟩
  | str s => exact ⟨_, _, rfl, rfl, by decide, by decide⟩
  | @arr xs h =>
    cases xs with
    | nil => exact ⟨_, _, rfl, rfl, by decide, by decide⟩
    | cons x xs => exact ⟨'[', _, by rw [write]; rfl, rfl, by decide, by decide⟩
  | @obj ms hn h =>
    cases ms with
    | nil => exact ⟨_, _, rfl, rfl, by decide, by decide⟩
    | cons m ms => exact ⟨'\x7b', _, by rw [write]; rfl, rfl, by decide, by decide⟩

theorem EndsNumber.cons (hd : c.isDigit = false) (hc : c ∉ ['.', 'e', 'E']) :
    EndsNumber (c :: cs) :=
  ⟨hd, hc⟩

theorem EndsNumber.gap (h : EndsNumber cs) : EndsNumber (layout.gap depth ++ cs) := by
  cases layout with
  | compact => exact h
  | indented => exact .cons rfl (by decide)

/-- What is printed of a value stands at the place where its reading begins. -/
theorem IsPlain.skip_write (h : j.IsPlain) (layout : Layout) (depth : Nat) (rest : List Char) :
    skip (j.write layout depth ++ rest) = j.write layout depth ++ rest := by
  obtain ⟨c, cs, hw, hc, -⟩ := h.exists_write_eq layout depth
  rw [hw, List.cons_append, skip_cons hc]

/-- The elements of an array are read one by one up to the closing bracket. -/
theorem readElements_write (depth outer count : Nat) (rest : List Char)
    (hp : ∀ y ∈ x :: xs, IsPlain y) (hr : ∀ y ∈ x :: xs, ReadsBack layout y)
    (hcount : 2 * (x.write layout depth ++ writeElements layout depth xs).length < count) :
    readElements count (x.write layout depth ++ (writeElements layout depth xs ++
      (layout.gap outer ++ ']' :: rest))) = .ok (x :: xs, rest) := by
  induction xs generalizing x count with
  | nil =>
    obtain ⟨count, rfl⟩ := Nat.exists_eq_add_one.mpr (Nat.zero_lt_of_lt hcount)
    have hx := hr x (List.mem_cons_self ..) depth count (layout.gap outer ++ ']' :: rest)
      (EndsNumber.gap (.cons rfl (by decide)))
      (by simp only [List.length_append] at hcount; omega)
    rw [writeElements, List.nil_append, readElements, hx]
    simp only [bind, Except.bind, skip_gap]
    rfl
  | cons y ys ih =>
    obtain ⟨count, rfl⟩ := Nat.exists_eq_add_one.mpr (Nat.zero_lt_of_lt hcount)
    rw [writeElements] at hcount ⊢
    simp only [List.length_append, List.length_cons] at hcount
    have hx := hr x (List.mem_cons_self ..) depth count
      (',' :: (layout.gap depth ++ (y.write layout depth ++ (writeElements layout depth ys ++
        (layout.gap outer ++ ']' :: rest))))) (.cons rfl (by decide)) (by omega)
    have hy := ih count (fun z hz => hp z (List.mem_cons_of_mem _ hz))
      (fun z hz => hr z (List.mem_cons_of_mem _ hz)) (by simp only [List.length_append]; omega)
    have hskip := (hp y (by simp)).skip_write layout depth
    simp only [List.cons_append, List.append_assoc]
    rw [readElements, hx]
    simp only [bind, Except.bind]
    rw [skip_cons rfl]
    simp only [skip_gap, hskip, hy]

theorem colon_append (layout : Layout) (cs : List Char) :
    ∃ left, layout.colon ++ cs = ':' :: left ∧ skip left = skip cs := by
  cases layout with
  | compact => exact ⟨cs, rfl, rfl⟩
  | indented => exact ⟨' ' :: cs, rfl, rfl⟩

theorem readMembers_member (hp : x.IsPlain) (hr : ReadsBack layout x) {tail : List Char}
    (ht : EndsNumber tail) (hcount : 2 * (x.write layout depth).length ≤ count)
    (hms : skip tail = '\x7d' :: rest ∧ ms = [] ∨
      ∃ left, skip tail = ',' :: left ∧ readMembers count (skip left) = .ok (ms, rest)) :
    readMembers (count + 1) (writeText name ++ (layout.colon ++ (x.write layout depth ++ tail))) =
      .ok ((name, x) :: ms, rest) := by
  obtain ⟨left, hcolon, hskip⟩ := colon_append layout (x.write layout depth ++ tail)
  have hname : ∀ opening, readText opening
      (name.toList.flatMap writeChar ++ '"' :: ':' :: left) = .ok (name, ':' :: left) := fun _ =>
    readText_write name _
  have hx : readValue count (skip left) = .ok (x, tail) := by
    rw [hskip, hp.skip_write]
    exact hr depth count tail ht hcount
  rw [hcolon, writeText]
  simp only [List.cons_append, List.append_assoc, List.nil_append]
  rw [readMembers, hname]
  simp only [bind, Except.bind]
  rw [skip_cons rfl]
  rcases hms with ⟨hend, rfl⟩ | ⟨left, hnext, hms⟩
  · simp only [hx, hend]
  · simp only [hx, hnext, hms]

/-- The members of an object are read one by one up to the closing brace. -/
theorem readMembers_write (depth outer count : Nat) (rest : List Char)
    (hp : ∀ m ∈ (name, x) :: ms, IsPlain m.2) (hr : ∀ m ∈ (name, x) :: ms, ReadsBack layout m.2)
    (hcount : 2 * (x.write layout depth ++ writeMembers layout depth ms).length < count) :
    readMembers count (writeText name ++ (layout.colon ++ (x.write layout depth ++
      (writeMembers layout depth ms ++ (layout.gap outer ++ '\x7d' :: rest))))) =
        .ok ((name, x) :: ms, rest) := by
  induction ms generalizing name x count with
  | nil =>
    obtain ⟨count, rfl⟩ := Nat.exists_eq_add_one.mpr (Nat.zero_lt_of_lt hcount)
    simp only [List.length_append] at hcount
    have htail : EndsNumber (layout.gap outer ++ '\x7d' :: rest) := .gap (.cons rfl (by decide))
    have hx : x.IsPlain := hp _ (List.mem_cons_self ..)
    have hrx : ReadsBack layout x := hr _ (List.mem_cons_self ..)
    rw [writeMembers, List.nil_append]
    exact readMembers_member hx hrx htail (by omega) (.inl ⟨by rw [skip_gap, skip_cons rfl], rfl⟩)
  | cons m ms ih =>
    obtain ⟨name', y⟩ := m
    obtain ⟨count, rfl⟩ := Nat.exists_eq_add_one.mpr (Nat.zero_lt_of_lt hcount)
    rw [writeMembers] at hcount ⊢
    simp only [List.length_append, List.length_cons] at hcount
    have hms := ih count (fun m hm => hp m (List.mem_cons_of_mem _ hm))
      (fun m hm => hr m (List.mem_cons_of_mem _ hm)) (by simp only [List.length_append]; omega)
    have hskip : ∀ cs, skip (writeText name' ++ cs) = writeText name' ++ cs := fun _ =>
      skip_cons rfl
    have hx : x.IsPlain := hp _ (List.mem_cons_self ..)
    have hrx : ReadsBack layout x := hr _ (List.mem_cons_self ..)
    simp only [List.cons_append, List.append_assoc]
    refine readMembers_member hx hrx (.cons rfl (by decide)) (by omega)
      (.inr ⟨_, skip_cons rfl, ?_⟩)
    rw [skip_gap, hskip]
    exact hms

theorem mergeMembers_of_nodup (h : (ms.map Prod.fst).Nodup) : mergeMembers ms = ms := by
  have hset : ∀ (kept : List (String × Json)) (name : String) (v : Json),
      name ∉ kept.map Prod.fst → setMember name v kept = kept ++ [(name, v)] := by
    intro kept name v hn
    induction kept with
    | nil => rfl
    | cons m kept ih =>
      rw [List.map_cons, List.mem_cons, not_or] at hn
      rw [setMember, if_neg (Ne.symm hn.1), ih hn.2, List.cons_append]
  have hfold : ∀ kept : List (String × Json), ((kept ++ ms).map Prod.fst).Nodup →
      ms.foldl (fun kept m => setMember m.1 m.2 kept) kept = kept ++ ms := by
    clear h
    induction ms with
    | nil => exact fun kept _ => (List.append_nil kept).symm
    | cons m ms ih =>
      intro kept h
      have hn : m.1 ∉ kept.map Prod.fst := by
        rw [List.map_append, List.map_cons, List.nodup_middle, List.nodup_cons] at h
        exact fun hm => h.1 (List.mem_append_left _ hm)
      rw [List.foldl_cons, hset kept m.1 m.2 hn, ih _ (by simpa using h), List.append_assoc,
        List.singleton_append]
  exact hfold [] h

/-- Something is printed of every value, so at least one step is left to read it. -/
theorem readsBack_of_succ (hp : j.IsPlain) (h : ∀ (depth count : Nat) (rest : List Char),
    EndsNumber rest → 2 * (j.write layout depth).length ≤ count + 1 →
      readValue (count + 1) (j.write layout depth ++ rest) = .ok (j, rest)) :
    ReadsBack layout j := by
  intro depth count rest hrest hcount
  obtain ⟨c, cs, hw, -⟩ := hp.exists_write_eq layout depth
  have hpos : 0 < count := by
    rw [hw, List.length_cons] at hcount
    omega
  obtain ⟨count, rfl⟩ := Nat.exists_eq_add_one.mpr hpos
  exact h depth count rest hrest hcount

theorem readValue_arr (h : skip rest = c :: cs) (hc : c ≠ ']') :
    readValue (count + 1) ('[' :: rest) =
      (readElements count (c :: cs)).map fun (xs, left) => (arr xs, left) := by
  rw [readValue, h]
  split
  · next he => exact absurd (List.cons.inj he).1 hc
  · rfl

theorem readValue_obj (h : skip rest = c :: cs) (hc : c ≠ '\x7d') :
    readValue (count + 1) ('\x7b' :: rest) =
      (readMembers count (c :: cs)).map fun (ms, left) => (obj (mergeMembers ms), left) := by
  rw [readValue, h]
  split
  · next he => exact absurd (List.cons.inj he).1 hc
  · rfl

theorem readsBack_arr (hp : ∀ y ∈ x :: xs, IsPlain y) (hr : ∀ y ∈ x :: xs, ReadsBack layout y) :
    ReadsBack layout (.arr (x :: xs)) := by
  refine readsBack_of_succ (.arr hp) fun depth count rest _ hcount => ?_
  rw [write] at hcount ⊢
  simp only [List.length_append, List.length_cons] at hcount
  have hx := hp x (List.mem_cons_self ..)
  have hread := readElements_write (depth + 1) depth count rest hp hr
    (by simp only [List.length_append]; omega)
  obtain ⟨c, cs, hw, -, hclose, -⟩ := hx.exists_write_eq layout (depth + 1)
  have hskip := hx.skip_write layout (depth + 1)
    (writeElements layout (depth + 1) xs ++ (layout.gap depth ++ ']' :: rest))
  rw [hw] at hskip hread ⊢
  simp only [List.cons_append, List.append_assoc, List.nil_append] at hskip hread ⊢
  rw [readValue_arr ((skip_gap ..).trans hskip) hclose, hread]
  rfl

theorem readsBack_obj (hn : (((name, x) :: ms).map Prod.fst).Nodup)
    (hp : ∀ m ∈ (name, x) :: ms, IsPlain m.2) (hr : ∀ m ∈ (name, x) :: ms, ReadsBack layout m.2) :
    ReadsBack layout (.obj ((name, x) :: ms)) := by
  refine readsBack_of_succ (.obj hn hp) fun depth count rest _ hcount => ?_
  rw [write] at hcount ⊢
  simp only [List.length_append, List.length_cons] at hcount
  have hread := readMembers_write (depth + 1) depth count rest hp hr
    (by simp only [List.length_append]; omega)
  rw [writeText] at hread ⊢
  simp only [List.cons_append, List.append_assoc, List.nil_append] at hread ⊢
  rw [readValue_obj ((skip_gap ..).trans (skip_cons rfl)) (by decide), hread]
  simp only [Except.map, mergeMembers_of_nodup hn]

/-- **What is printed is read back**, in either layout and at any level. -/
theorem IsPlain.readsBack (h : j.IsPlain) (layout : Layout) : ReadsBack layout j := by
  induction h with
  | null => exact readsBack_of_succ .null fun depth count rest _ _ => rfl
  | bool b => exact readsBack_of_succ (.bool b) fun depth count rest _ _ => by cases b <;> rfl
  | int n => exact readsBack_of_succ (.int n) fun depth count rest h _ => readValue_writeInt n h
  | str s =>
    refine readsBack_of_succ (.str s) fun depth count rest _ _ => ?_
    have hs : ∀ opening, readText opening (s.toList.flatMap writeChar ++ '"' :: rest) =
        .ok (s, rest) := fun _ => readText_write s rest
    rw [write, writeText]
    simp only [List.cons_append, List.append_assoc, List.nil_append]
    rw [readValue, hs]
    rfl
  | @arr xs hp ih =>
    cases xs with
    | nil => exact readsBack_of_succ (.arr hp) fun depth count rest _ _ => rfl
    | cons x xs => exact readsBack_arr hp ih
  | @obj ms hn hp ih =>
    cases ms with
    | nil => exact readsBack_of_succ (.obj hn hp) fun depth count rest _ _ => rfl
    | cons m ms => exact readsBack_obj hn hp ih

/-- A printed value is read back if nothing but spaces follows it. -/
theorem IsPlain.read_write (h : j.IsPlain) (layout : Layout)
    (hrest : ∀ c ∈ rest, isSpace c = true) : read (j.write layout 0 ++ rest) = .ok j := by
  have hskip : skip rest = [] := by
    rw [skip, List.dropWhile_eq_nil_iff]
    exact hrest
  have hend : EndsNumber rest := by
    cases rest with
    | nil => exact ⟨rfl, by decide⟩
    | cons c rest =>
      have hc := hrest c (List.mem_cons_self ..)
      simp only [isSpace, Bool.or_eq_true, decide_eq_true_eq] at hc
      rcases hc with ((rfl | rfl) | rfl) | rfl <;> exact .cons rfl (by decide)
  have hvalue := h.readsBack layout 0 (2 * (j.write layout 0 ++ rest).length + 2) rest hend
    (by simp only [List.length_append]; omega)
  rw [read, readAll, h.skip_write, hvalue]
  simp only [bind, Except.bind, hskip]
  rfl

/-- A file that holds a printed value is read as the value, whatever its line ends are. -/
theorem IsPlain.readFile_of_unifyLineEnds (h : j.IsPlain) (layout : Layout) {content : String}
    (hc : Text.unifyLineEnds content.toList = j.write layout 0) : readFile content = .ok j := by
  obtain ⟨c, cs, hw, -, -, hmark⟩ := h.exists_write_eq layout 0
  have hread : read (j.write layout 0 ++ []) = .ok j := h.read_write layout (by simp)
  rw [List.append_nil] at hread
  rw [readFile, hc]
  rw [hw] at hread ⊢
  split
  · next heq => exact absurd (List.cons.inj heq).1 hmark
  · exact hread

/-- A file that holds a printed value is read as the value, if none of its line ends is another than
a line feed. -/
theorem IsPlain.readFile_write (h : j.IsPlain) (layout : Layout) {content : String}
    (hc : content.toList = j.write layout 0) (hr : '\r' ∉ content.toList) :
    readFile content = .ok j :=
  h.readFile_of_unifyLineEnds layout (by rw [Text.unifyLineEnds_of_notMem hr, hc])

/-! ### What holds of all that is printed -/

namespace Composes

variable (hP : Composes P)

include hP

theorem cons (hb : c ≠ '\\') (hr : c ≠ '\r') (h : P cs) : P (c :: cs) :=
  hP.append (hP.outside c hb hr) h

/-- What holds no backslash and no carriage return is put together from its characters. -/
theorem of_notMem (hb : '\\' ∉ cs) (hr : '\r' ∉ cs) : P cs := by
  induction cs with
  | nil => exact hP.nil
  | cons c cs ih =>
    rw [List.mem_cons, not_or] at hb hr
    exact hP.cons (Ne.symm hb.1) (Ne.symm hr.1) (ih hb.2 hr.2)

theorem writeText (s : String) : P (writeText s) := by
  have hchars : P (s.toList.flatMap writeChar) := by
    induction s.toList with
    | nil => exact hP.nil
    | cons c cs ih => exact hP.append (hP.inside c) ih
  exact hP.append (hP.cons (by decide) (by decide) hchars) (hP.of_notMem (by decide) (by decide))

theorem writeInt (n : Int) : P (writeInt n) := by
  have hdigits : ∀ n : Nat, P (Nat.toDigits 10 n) := fun n => by
    have hdigit : ∀ c ∈ Nat.toDigits 10 n, c.isDigit = true := fun c =>
      Nat.isDigit_of_mem_toDigits (by decide) (by decide)
    exact hP.of_notMem (fun h => absurd (hdigit _ h) (by decide))
      fun h => absurd (hdigit _ h) (by decide)
  cases n with
  | ofNat n => exact hdigits n
  | negSucc n => exact hP.cons (by decide) (by decide) (hdigits (n + 1))

theorem gap (layout : Layout) (depth : Nat) : P (layout.gap depth) := by
  cases layout with
  | compact => exact hP.nil
  | indented =>
    have hspaces : ∀ c ∈ List.replicate (2 * depth) ' ', c = ' ' := fun _ =>
      List.eq_of_mem_replicate
    exact hP.cons (by decide) (by decide) (hP.of_notMem
      (fun h => absurd (hspaces _ h) (by decide)) fun h => absurd (hspaces _ h) (by decide))

theorem colon (layout : Layout) : P layout.colon := by
  cases layout <;> exact hP.of_notMem (by decide) (by decide)

theorem writeElements (h : ∀ y ∈ xs, ∀ depth, P (y.write layout depth)) :
    P (writeElements layout depth xs) := by
  induction xs with
  | nil =>
    rw [Json.writeElements]
    exact hP.nil
  | cons x xs ih =>
    rw [Json.writeElements]
    have hxs := ih fun y hy => h y (List.mem_cons_of_mem _ hy)
    have hx := h x (List.mem_cons_self ..) depth
    exact hP.append (hP.append (hP.cons (by decide) (by decide) (hP.gap layout depth)) hx) hxs

theorem memberStart (hb : c ≠ '\\') (hr : c ≠ '\r') (layout : Layout) (depth : Nat)
    (name : String) : P (c :: layout.gap depth ++ Json.writeText name ++ layout.colon) :=
  hP.append (hP.append (hP.cons hb hr (hP.gap layout depth)) (hP.writeText name))
    (hP.colon layout)

theorem writeMembers (h : ∀ m ∈ ms, ∀ depth, P (m.2.write layout depth)) :
    P (writeMembers layout depth ms) := by
  induction ms with
  | nil =>
    rw [Json.writeMembers]
    exact hP.nil
  | cons m ms ih =>
    rw [Json.writeMembers]
    have hms := ih fun m hm => h m (List.mem_cons_of_mem _ hm)
    have hm := h m (List.mem_cons_self ..) depth
    exact hP.append (hP.append (hP.memberStart (by decide) (by decide) layout depth m.1) hm) hms

/-- **A property that composes holds of what is printed**, in either layout and at any level. -/
theorem write (h : j.IsPlain) (layout : Layout) (depth : Nat) : P (j.write layout depth) := by
  induction h generalizing depth with
  | null =>
    rw [Json.write]
    exact hP.of_notMem (by decide) (by decide)
  | bool b =>
    cases b <;> rw [Json.write] <;> exact hP.of_notMem (by decide) (by decide)
  | int n => exact hP.writeInt n
  | str s => exact hP.writeText s
  | @arr xs hp ih =>
    cases xs with
    | nil =>
      rw [Json.write]
      exact hP.of_notMem (by decide) (by decide)
    | cons x xs =>
      rw [Json.write]
      have hstart : P ('[' :: layout.gap (depth + 1)) :=
        hP.cons (by decide) (by decide) (hP.gap layout (depth + 1))
      have hx := ih x (List.mem_cons_self ..) (depth + 1)
      have hxs : P (Json.writeElements layout (depth + 1) xs) :=
        hP.writeElements fun y hy => ih y (List.mem_cons_of_mem _ hy)
      have hend : P [']'] := hP.outside _ (by decide) (by decide)
      exact hP.append (hP.append (hP.append (hP.append hstart hx) hxs) (hP.gap layout depth)) hend
  | @obj ms hn hp ih =>
    cases ms with
    | nil =>
      rw [Json.write]
      exact hP.of_notMem (by decide) (by decide)
    | cons m ms =>
      rw [Json.write]
      have hstart : P ('\x7b' :: layout.gap (depth + 1) ++ Json.writeText m.1 ++ layout.colon) :=
        hP.memberStart (by decide) (by decide) layout (depth + 1) m.1
      have hm := ih m (List.mem_cons_self ..) (depth + 1)
      have hms : P (Json.writeMembers layout (depth + 1) ms) :=
        hP.writeMembers fun m hm => ih m (List.mem_cons_of_mem _ hm)
      have hend : P ['\x7d'] := hP.outside _ (by decide) (by decide)
      exact hP.append (hP.append (hP.append (hP.append hstart hm) hms) (hP.gap layout depth)) hend

end Composes

/-! ### Halves of pairs -/

theorem hasLoneHalf_cons (h : c ≠ '\\') (rest : List Char) :
    hasLoneHalf (c :: rest) = hasLoneHalf rest := by
  rw [hasLoneHalf]
  · exact fun _ _ _ _ _ hc _ => h hc
  · exact fun _ _ hc _ => h hc

theorem isWhole_of_notMem (h : '\\' ∉ cs) : IsWhole cs := by
  induction cs with
  | nil => exact fun _ => rfl
  | cons c cs ih =>
    rw [List.mem_cons, not_or] at h
    intro rest
    rw [List.cons_append, hasLoneHalf_cons (Ne.symm h.1), ih h.2]

theorem isWhole_writeChar (c : Char) : IsWhole (writeChar c) := by
  intro rest
  by_cases hl : c ∈ escapedByLetter
  · simp only [escapedByLetter, List.mem_cons, List.not_mem_nil, or_false] at hl
    rcases hl with rfl | rfl | rfl | rfl | rfl | rfl | rfl <;> rfl
  · by_cases hc : c.toNat < 32
    · rw [writeChar_of_control hl hc]
      simp only [List.cons_append, List.nil_append]
      have hlow : ¬ (0xDC00 ≤ c.toNat ∧ c.toNat < 0xE000) := by omega
      have hhigh : ¬ (0xD800 ≤ c.toNat ∧ c.toNat < 0xDC00) := by omega
      rw [hasLoneHalf.eq_def]
      simp only [hexValue4?_control hc, hlow, hhigh, if_false]
    · rw [writeChar_of_plain hl hc]
      refine isWhole_of_notMem (fun h => hl ?_) rest
      rw [← List.mem_singleton.mp h]
      decide

theorem composes_isWhole : Composes IsWhole where
  nil := fun _ => rfl
  append := fun h h' rest => by rw [List.append_assoc, h, h']
  inside := isWhole_writeChar
  outside := fun _ hb _ => hasLoneHalf_cons hb

/-- What is printed holds no half of a pair of code units. -/
theorem IsPlain.isWhole_write (h : j.IsPlain) (layout : Layout) (depth : Nat) :
    IsWhole (j.write layout depth) :=
  composes_isWhole.write h layout depth

/-! ### Carriage returns -/

theorem return_notMem_writeChar (c : Char) : '\r' ∉ writeChar c := by
  by_cases hl : c ∈ escapedByLetter
  · simp only [escapedByLetter, List.mem_cons, List.not_mem_nil, or_false] at hl
    rcases hl with rfl | rfl | rfl | rfl | rfl | rfl | rfl <;> decide
  · by_cases hc : c.toNat < 32
    · have hdigit : ∀ n < 16, '\r' ≠ hexDigit n := by decide
      have hhigh := hdigit (c.toNat / 16) (by omega)
      have hlow := hdigit (c.toNat % 16) (by omega)
      rw [writeChar_of_control hl hc]
      simp [hhigh, hlow]
    · rw [writeChar_of_plain hl hc, List.mem_singleton]
      rintro rfl
      exact hl (by decide)

theorem composes_return_notMem : Composes ('\r' ∉ ·) where
  nil := List.not_mem_nil
  append := fun h h' => List.mem_append.not.mpr (not_or.mpr ⟨h, h'⟩)
  inside := return_notMem_writeChar
  outside := fun _ _ hr => List.mem_singleton.not.mpr (Ne.symm hr)

/-- What is printed holds no carriage return, also if a text does. -/
theorem IsPlain.return_notMem_write (h : j.IsPlain) (layout : Layout) (depth : Nat) :
    '\r' ∉ j.write layout depth :=
  composes_return_notMem.write h layout depth

end Json
end Sentential
