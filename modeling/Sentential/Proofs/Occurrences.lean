/-
# First occurrences

The propositions of a formula and the compounds that get a column are the elements of a list with
the repetitions dropped, each where it occurs first. A list without repetitions that has the same
elements in this order is the only one of its kind. Where no key comes twice, what is found first
under a key is all that has it.

Key definitions: `FirstOccurrences`.
Key theorems: `nodup_eraseDups`, `firstOccurrences_eraseDups`, `FirstOccurrences.unique`,
`find?_key_eq_some_iff`.
-/
import Mathlib.Data.List.Induction
import Mathlib.Data.List.Nodup
import Mathlib.Order.Basic

namespace Sentential

/-- An element is found by its key, if no other has it. -/
theorem find?_key_eq_some_iff {β κ : Type} [DecidableEq κ] {key : β → κ} {xs : List β} {x : β}
    {k : κ} (hn : (xs.map key).Nodup) : xs.find? (key · = k) = some x ↔ x ∈ xs ∧ key x = k := by
  constructor
  · intro h
    exact ⟨List.mem_of_find?_eq_some h, by simpa using List.find?_some h⟩
  · rintro ⟨hm, rfl⟩
    cases hf : xs.find? (key · = key x) with
    | none => simpa using List.find?_eq_none.mp hf x hm
    | some y =>
      have hkey : key y = key x := by simpa using List.find?_some hf
      rw [List.inj_on_of_nodup_map hn (List.mem_of_find?_eq_some hf) hm hkey]

variable {α : Type} [BEq α] {xs ys zs : List α} {x : α}

/-- The list `ys` holds what `xs` holds, each element once, in the order in which `xs` first comes
to it. -/
structure FirstOccurrences (xs ys : List α) : Prop where
  nodup : ys.Nodup
  mem_iff : ∀ x, x ∈ ys ↔ x ∈ xs
  ordered : ys.Pairwise fun a b => xs.idxOf a < xs.idxOf b

/-- There is only one list of the first occurrences. -/
theorem FirstOccurrences.unique (hy : FirstOccurrences xs ys) (hz : FirstOccurrences xs zs) :
    ys = zs := by
  have hperm : ys.Perm zs := by
    rw [List.perm_ext_iff_of_nodup hy.nodup hz.nodup]
    exact fun x => (hy.mem_iff x).trans (hz.mem_iff x).symm
  refine hperm.eq_of_pairwise (fun a b _ _ hab hba => ?_) hy.ordered hz.ordered
  exact absurd hab (Nat.lt_asymm hba)

variable [LawfulBEq α]

theorem nodup_eraseDups : ∀ xs : List α, xs.eraseDups.Nodup
  | [] => .nil
  | x :: xs => by
    rw [List.eraseDups_cons, List.nodup_cons]
    exact ⟨by simp [List.mem_eraseDups], nodup_eraseDups _⟩
  termination_by xs => xs.length
  decreasing_by exact Nat.lt_succ_of_le (List.length_filter_le ..)

theorem eraseDups_concat_of_mem (h : x ∈ xs) : (xs ++ [x]).eraseDups = xs.eraseDups := by
  simp [List.eraseDups_append, List.removeAll, h]

theorem eraseDups_concat_of_notMem (h : x ∉ xs) :
    (xs ++ [x]).eraseDups = xs.eraseDups ++ [x] := by
  simp [List.eraseDups_append, List.removeAll, h, List.eraseDups_cons]

/-- The elements that are left once repetitions are dropped stand where they first occurred. -/
theorem firstOccurrences_eraseDups (xs : List α) : FirstOccurrences xs xs.eraseDups := by
  refine ⟨nodup_eraseDups xs, fun x => List.mem_eraseDups, ?_⟩
  -- from the right end, since an element that is added there comes behind all others
  induction xs using List.reverseRecOn with
  | nil => exact .nil
  | append_singleton xs x ih =>
    have hkept : xs.eraseDups.Pairwise fun a b => (xs ++ [x]).idxOf a < (xs ++ [x]).idxOf b := by
      refine ih.imp_of_mem fun {a b} ha hb hab => ?_
      rwa [List.idxOf_append_of_mem (List.mem_eraseDups.mp ha),
        List.idxOf_append_of_mem (List.mem_eraseDups.mp hb)]
    by_cases hx : x ∈ xs
    · rwa [eraseDups_concat_of_mem hx]
    · rw [eraseDups_concat_of_notMem hx, List.pairwise_append]
      refine ⟨hkept, List.pairwise_singleton .., fun a ha b hb => ?_⟩
      obtain rfl := List.mem_singleton.mp hb
      have ha := List.mem_eraseDups.mp ha
      rw [List.idxOf_append_of_mem ha, List.idxOf_append_of_notMem hx]
      exact Nat.lt_of_lt_of_le (List.idxOf_lt_length_iff.mpr ha) (Nat.le_add_right ..)

end Sentential
