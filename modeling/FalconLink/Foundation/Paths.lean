import Mathlib.Data.List.Basic

/-! # Walks in a tree of names

A place is the list of names on the way to it from the root. A walk goes up and down, and has
the same end as the direct walk that is left when every detour is removed from it.
-/

namespace FalconLink.Paths

variable {ν : Type*}

inductive Move (ν : Type*) where
  | up
  | down (name : ν)
  deriving DecidableEq, Repr

/-- Where a walk ends. The root is above itself. -/
def walk : List ν → List (Move ν) → List ν
  | place, [] => place
  | place, .up :: moves => walk place.dropLast moves
  | place, .down name :: moves => walk (place ++ [name]) moves

/-- A place below another one. -/
def Below (top place : List ν) : Prop :=
  ∃ more, more ≠ [] ∧ place = top ++ more

theorem below_iff {top place : List ν} : Below top place ↔ top <+: place ∧ top ≠ place := by
  constructor
  · rintro ⟨more, hmore, rfl⟩
    exact ⟨List.prefix_append top more, by simpa using hmore⟩
  · rintro ⟨⟨more, rfl⟩, hne⟩
    exact ⟨more, by simpa using hne, rfl⟩

instance [DecidableEq ν] (top place : List ν) : Decidable (Below top place) :=
  decidable_of_iff _ below_iff.symm

/-- A walk without detours goes up first and down after that. -/
structure Direct (ν : Type*) where
  ups : ℕ
  names : List ν
  deriving DecidableEq, Repr

namespace Direct

def add (d : Direct ν) : Move ν → Direct ν
  | .up => if d.names.isEmpty then ⟨d.ups + 1, []⟩ else ⟨d.ups, d.names.dropLast⟩
  | .down name => ⟨d.ups, d.names ++ [name]⟩

/-- Where the direct walk ends. -/
def target (d : Direct ν) (place : List ν) : List ν :=
  place.take (place.length - d.ups) ++ d.names

end Direct

/-- The direct walk to the end of a walk: every step up cancels the last name. -/
def direct (moves : List (Move ν)) : Direct ν :=
  moves.foldl Direct.add ⟨0, []⟩

theorem walk_append (place : List ν) (front back : List (Move ν)) :
    walk place (front ++ back) = walk (walk place front) back := by
  induction front generalizing place with
  | nil => rfl
  | cons move front ih =>
      cases move with
      | up => exact ih place.dropLast
      | down name => exact ih (place ++ [name])

theorem Direct.target_add (d : Direct ν) (move : Move ν) (place : List ν) :
    (d.add move).target place = walk (d.target place) [move] := by
  cases move with
  | up =>
      rcases d with ⟨ups, names⟩
      cases names with
      | nil =>
          simp only [add, target, walk, List.isEmpty_nil, if_true, List.append_nil]
          rw [List.dropLast_eq_take, List.take_take, List.length_take]
          congr 1
          omega
      | cons name names =>
          simp only [add, target, walk, List.isEmpty_cons]
          rw [List.dropLast_append_of_ne_nil (by simp)]
          simp
  | down name => simp [add, target, walk]

theorem walk_foldl (moves : List (Move ν)) (d : Direct ν) (place : List ν) :
    (moves.foldl Direct.add d).target place = walk (d.target place) moves := by
  induction moves generalizing d with
  | nil => rfl
  | cons move moves ih =>
      rw [List.foldl_cons, ih, d.target_add, ← walk_append]
      rfl

/-- Detours do not matter for the end of a walk. -/
theorem walk_eq (place : List ν) (moves : List (Move ν)) :
    walk place moves = (direct moves).target place := by
  rw [direct, walk_foldl]
  simp [Direct.target]

/-- A walk ends below a place that lies on `inside` from its start exactly when the direct walk
names the part of the way that it has left, then `inside`, and then something more. -/
theorem below_walk_iff (place inside : List ν) (moves : List (Move ν)) :
    Below (place ++ inside) (walk place moves) ↔
      ∃ more, more ≠ [] ∧ (direct moves).names =
        place.drop (place.length - (direct moves).ups) ++ inside ++ more := by
  have hplace : ∀ more, place ++ inside ++ more =
      place.take (place.length - (direct moves).ups) ++
        (place.drop (place.length - (direct moves).ups) ++ inside ++ more) := by
    intro more
    simp only [← List.append_assoc, List.take_append_drop]
  simp only [Below, walk_eq, Direct.target, hplace, List.append_right_inj]

end FalconLink.Paths
