import Mathlib.Data.List.Infix
import Mathlib.Data.Nat.Notation

/-! # First occurrence of a pattern in a list -/

namespace FalconLink.Search

variable {α : Type*} [DecidableEq α]

/-- The least offset at which `pat` occurs in `xs`. -/
def firstMatch (pat : List α) : List α → Option ℕ
  | [] => if pat.isPrefixOf [] then some 0 else none
  | x :: xs =>
      if pat.isPrefixOf (x :: xs) then some 0 else (firstMatch pat xs).map (· + 1)

theorem firstMatch_eq_zero {pat xs : List α} (h : pat <+: xs) :
    firstMatch pat xs = some 0 := by
  cases xs <;> simp [firstMatch, h]

theorem firstMatch_cons {pat : List α} {x : α} {xs : List α} (h : ¬pat <+: x :: xs) :
    firstMatch pat (x :: xs) = (firstMatch pat xs).map (· + 1) := by
  simp [firstMatch, h]

theorem firstMatch_nil {pat : List α} (h : pat ≠ []) : firstMatch pat [] = none := by
  simp [firstMatch, h]

/-- A reported offset is an occurrence, and no smaller offset is one. -/
theorem firstMatch_spec {pat : List α} :
    ∀ {xs : List α} {pos : ℕ}, firstMatch pat xs = some pos →
      pat <+: xs.drop pos ∧ pos + pat.length ≤ xs.length ∧
        ∀ j < pos, ¬pat <+: xs.drop j := by
  intro xs
  induction xs with
  | nil =>
      intro pos h
      by_cases hp : pat = []
      · simp [firstMatch, hp] at h
        simp [hp, ← h]
      · simp [firstMatch_nil hp] at h
  | cons x xs ih =>
      intro pos h
      by_cases hp : pat <+: x :: xs
      · rw [firstMatch_eq_zero hp] at h
        obtain rfl := Option.some.inj h
        exact ⟨by simpa using hp, by simpa using hp.length_le, by simp⟩
      · rw [firstMatch_cons hp] at h
        obtain ⟨k, hk, rfl⟩ := Option.map_eq_some_iff.mp h
        obtain ⟨hocc, hlen, hmin⟩ := ih hk
        refine ⟨by simpa using hocc, by simp only [List.length_cons]; omega, ?_⟩
        intro j hj
        cases j with
        | zero => simpa using hp
        | succ j => simpa using hmin j (by omega)

/-- The search fails exactly when the pattern occurs nowhere. -/
theorem firstMatch_eq_none_iff {pat xs : List α} :
    firstMatch pat xs = none ↔ ¬pat <:+: xs := by
  induction xs with
  | nil => by_cases hp : pat = [] <;> simp [firstMatch, hp]
  | cons x xs ih =>
      by_cases hp : pat <+: x :: xs
      · simp [firstMatch_eq_zero hp, hp.isInfix]
      · rw [firstMatch_cons hp, Option.map_eq_none_iff, ih, List.infix_cons_iff]
        simp [hp]

/-- An occurrence found in a list is still the first one in every extension of it. -/
theorem firstMatch_append {pat : List α} (ys : List α) :
    ∀ {xs : List α} {pos : ℕ}, firstMatch pat xs = some pos →
      firstMatch pat (xs ++ ys) = some pos := by
  intro xs
  induction xs with
  | nil =>
      intro pos h
      by_cases hp : pat = []
      · subst hp
        rw [← h, firstMatch_eq_zero List.nil_prefix, firstMatch_eq_zero List.nil_prefix]
      · simp [firstMatch_nil hp] at h
  | cons x xs ih =>
      intro pos h
      by_cases hp : pat <+: x :: xs
      · rw [firstMatch_eq_zero hp] at h
        rw [← h]
        exact firstMatch_eq_zero (hp.trans (List.prefix_append _ _))
      · obtain ⟨k, hk, rfl⟩ := Option.map_eq_some_iff.mp ((firstMatch_cons hp) ▸ h)
        have hlen := (firstMatch_spec hk).2.1
        have hp' : ¬pat <+: x :: (xs ++ ys) := by
          intro hpre
          apply hp
          refine List.prefix_of_prefix_length_le hpre (List.prefix_append (x :: xs) ys) ?_
          simp only [List.length_cons]
          omega
        rw [List.cons_append, firstMatch_cons hp', ih hk]
        rfl

/-- Positions at which no occurrence begins can be skipped. -/
theorem firstMatch_skip {pat ys : List α} :
    ∀ xs : List α, (∀ j < xs.length, ¬pat <+: (xs ++ ys).drop j) →
      firstMatch pat (xs ++ ys) = (firstMatch pat ys).map (· + xs.length) := by
  intro xs
  induction xs with
  | nil => simp
  | cons x xs ih =>
      intro h
      rw [List.cons_append, firstMatch_cons (by simpa using h 0 (by simp)), ih]
      · rw [Option.map_map]
        congr 1
      · intro j hj
        simpa using h (j + 1) (by simpa using hj)

end FalconLink.Search
