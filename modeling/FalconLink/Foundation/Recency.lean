import Mathlib.Data.List.Basic
import Mathlib.Algebra.BigOperators.Group.List.Basic
import Mathlib.Algebra.GroupWithZero.Nat

/-! # Bounded least-recently-used stores

The reference object is a list of keyed values ordered by last use, least recently used
first. `size` measures a value.
-/

namespace FalconLink.Recency

variable {κ β : Type*} [DecidableEq κ] (size : β → ℕ)

/-- The sum of the sizes of all stored values. -/
def total (l : List (κ × β)) : ℕ :=
  (l.map fun e => size e.2).sum

/-- Look a key up. A hit moves the entry to the most recent end. -/
def load (key : κ) (l : List (κ × β)) : Option β × List (κ × β) :=
  match l.find? (fun e => e.1 = key) with
  | some e => (some e.2, l.eraseP (fun e => e.1 = key) ++ [e])
  | none => (none, l)

/-- Drop least recently used entries until the rest leaves room for `need` more. -/
def makeRoom (capacity need : ℕ) : List (κ × β) → List (κ × β)
  | [] => []
  | e :: rest =>
      if total size (e :: rest) + need ≤ capacity then e :: rest
      else makeRoom capacity need rest

/-- Store a new value at the most recent end, unless its key is present or it can never
fit. -/
def insert (capacity : ℕ) (key : κ) (value : β) (l : List (κ × β)) : Bool × List (κ × β) :=
  if key ∈ l.map Prod.fst ∨ capacity < size value then (false, l)
  else (true, makeRoom size capacity (size value) l ++ [(key, value)])

/-- A hit returns the first entry under the key and moves it to the end. -/
theorem load_append_cons {key : κ} {value : β} {front back : List (κ × β)}
    (hfront : ∀ e ∈ front, e.1 ≠ key) :
    load key (front ++ (key, value) :: back) = (some value, front ++ back ++ [(key, value)]) := by
  have hnot : ∀ e ∈ front, ¬(decide (e.1 = key) = true) := fun e he => by simpa using hfront e he
  have hnone : front.find? (fun e => e.1 = key) = none := by
    rw [List.find?_eq_none]
    exact hnot
  rw [load, List.find?_append, hnone, List.eraseP_append_right _ hnot]
  simp

/-- A miss leaves the list as it is. -/
theorem load_of_notMem {key : κ} {l : List (κ × β)} (h : ∀ e ∈ l, e.1 ≠ key) :
    load key l = (none, l) := by
  have hnone : l.find? (fun e => e.1 = key) = none := by
    rw [List.find?_eq_none]
    intro e he
    simpa using h e he
  simp [load, hnone]

omit [DecidableEq κ]

@[simp] theorem total_nil : total size ([] : List (κ × β)) = 0 := rfl

@[simp] theorem total_cons (e : κ × β) (l : List (κ × β)) :
    total size (e :: l) = size e.2 + total size l := by
  simp [total]

/-- `makeRoom` removes a prefix, the rest leaves the room asked for, and no shorter prefix
would do. -/
theorem makeRoom_shortest (capacity need : ℕ) (hneed : need ≤ capacity) :
    ∀ l : List (κ × β), ∃ n, makeRoom size capacity need l = l.drop n ∧
      total size (l.drop n) + need ≤ capacity ∧
        ∀ m < n, capacity < total size (l.drop m) + need := by
  intro l
  induction l with
  | nil => exact ⟨0, rfl, by simpa using hneed, by simp⟩
  | cons e rest ih =>
      by_cases h : total size (e :: rest) + need ≤ capacity
      · exact ⟨0, by simp only [makeRoom, h, ite_true, List.drop_zero], h, by simp⟩
      · obtain ⟨n, hn, hfits, hmin⟩ := ih
        refine ⟨n + 1, by simp only [makeRoom, h, ite_false, List.drop_succ_cons, hn], hfits, ?_⟩
        intro m hm
        cases m with
        | zero => simpa using h
        | succ m => exact hmin m (by omega)

end FalconLink.Recency
