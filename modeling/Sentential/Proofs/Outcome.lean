/-
# Computations that succeed

When a computation made of steps that may fail succeeds, each step does. Every reader and every
table is such a computation.

Key theorems: `map_ok_iff`, `bind_ok_iff`, `mapM_eq_pure`, `mapM_ok`, `exists_mapM_ok_iff`,
`length_of_mapM_ok`, `exists_of_mem_mapM_ok`, `exists_mapM_some`.
-/
import Mathlib.Data.List.Basic

namespace Sentential

variable {ε α β : Type}

theorem map_ok_iff {x : Except ε α} {f : α → β} {b : β} :
    x.map f = .ok b ↔ ∃ a, x = .ok a ∧ f a = b := by
  cases x <;> simp [Except.map]

theorem bind_ok_iff {x : Except ε α} {f : α → Except ε β} {b : β} :
    x.bind f = .ok b ↔ ∃ a, x = .ok a ∧ f a = .ok b := by
  cases x <;> simp [Except.bind]

theorem mapError_ok_iff {ε' : Type} {x : Except ε α} {f : ε → ε'} {a : α} :
    x.mapError f = .ok a ↔ x = .ok a := by
  cases x <;> simp [Except.mapError]

/-- A step that only computes a value for every element of a list computes them for the list. -/
theorem mapM_eq_pure {m : Type → Type} [Monad m] [LawfulMonad m] {xs : List α} {f : α → m β}
    {g : α → β} (h : ∀ x ∈ xs, f x = pure (g x)) : xs.mapM f = pure (xs.map g) := by
  induction xs with
  | nil => simp
  | cons x xs ih =>
    rw [List.mapM_cons, h x (List.mem_cons_self ..), ih fun y hy => h y (List.mem_cons_of_mem _ hy)]
    simp

/-- A step that succeeds for every element of a list succeeds for the list. -/
theorem mapM_ok {xs : List α} {f : α → Except ε β} {g : α → β} (h : ∀ x ∈ xs, f x = .ok (g x)) :
    xs.mapM f = .ok (xs.map g) :=
  mapM_eq_pure h

/-- A step succeeds for a list exactly if it does for every element. -/
theorem exists_mapM_ok_iff {xs : List α} {f : α → Except ε β} :
    (∃ ys, xs.mapM f = .ok ys) ↔ ∀ x ∈ xs, ∃ y, f x = .ok y := by
  induction xs with
  | nil => exact ⟨fun _ _ => nofun, fun _ => ⟨[], rfl⟩⟩
  | cons x xs ih =>
    rw [List.forall_mem_cons, ← ih, List.mapM_cons]
    constructor
    · rintro ⟨ys, h⟩
      obtain ⟨y, hy, h⟩ := bind_ok_iff.mp h
      obtain ⟨zs, hz, -⟩ := bind_ok_iff.mp h
      exact ⟨⟨y, hy⟩, zs, hz⟩
    · rintro ⟨⟨y, hy⟩, zs, hz⟩
      exact ⟨y :: zs, by rw [hy, hz]; rfl⟩

/-- The results of a step for a list come one from each element. -/
theorem length_of_mapM_ok {xs : List α} {ys : List β} {f : α → Except ε β}
    (h : xs.mapM f = .ok ys) : ys.length = xs.length := by
  induction xs generalizing ys with
  | nil =>
    obtain rfl := Except.ok.inj h
    rfl
  | cons x xs ih =>
    rw [List.mapM_cons] at h
    obtain ⟨y, -, h⟩ := bind_ok_iff.mp h
    obtain ⟨zs, hz, h⟩ := bind_ok_iff.mp h
    obtain rfl := Except.ok.inj h
    rw [List.length_cons, List.length_cons, ih hz]

theorem exists_of_mem_mapM_ok {xs : List α} {ys : List β} {f : α → Except ε β}
    (h : xs.mapM f = .ok ys) {y : β} (hy : y ∈ ys) : ∃ x ∈ xs, f x = .ok y := by
  induction xs generalizing ys with
  | nil =>
    obtain rfl := Except.ok.inj h
    cases hy
  | cons x xs ih =>
    rw [List.mapM_cons] at h
    obtain ⟨z, hz, h⟩ := bind_ok_iff.mp h
    obtain ⟨zs, hzs, h⟩ := bind_ok_iff.mp h
    obtain rfl := Except.ok.inj h
    rcases List.mem_cons.mp hy with rfl | hy
    · exact ⟨x, List.mem_cons_self .., hz⟩
    · obtain ⟨x', hx', hf⟩ := ih hzs hy
      exact ⟨x', List.mem_cons_of_mem _ hx', hf⟩

/-- Where a step has a result for every element of a list, it has as many for the list, each from
one of the elements. -/
theorem exists_mapM_some {xs : List α} {f : α → Option β} (h : ∀ x ∈ xs, (f x).isSome) :
    ∃ ys, xs.mapM f = some ys ∧ ys.length = xs.length ∧ ∀ y ∈ ys, ∃ x ∈ xs, f x = some y := by
  induction xs with
  | nil => exact ⟨[], rfl, rfl, nofun⟩
  | cons x xs ih =>
    obtain ⟨y, hy⟩ := Option.isSome_iff_exists.mp (h x (List.mem_cons_self ..))
    obtain ⟨ys, hys, hlen, hmem⟩ := ih fun x' hx' => h x' (List.mem_cons_of_mem _ hx')
    refine ⟨y :: ys, by rw [List.mapM_cons, hy, hys]; rfl, congrArg Nat.succ hlen, fun z hz => ?_⟩
    rcases List.mem_cons.mp hz with rfl | hz
    · exact ⟨x, List.mem_cons_self .., hy⟩
    · obtain ⟨x', hx', hf⟩ := hmem z hz
      exact ⟨x', List.mem_cons_of_mem _ hx', hf⟩

end Sentential
