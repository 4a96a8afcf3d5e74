import Mathlib.Data.List.TakeWhile
import FalconLink.Model.FilePaths

/-! # Paths made of two texts -/

namespace FalconLink.FilePaths

open Paths

/-! ## Components -/

theorem moves_append_slash (front back : Bytes) :
    moves (front ++ slash :: back) = moves front ++ moves back := by
  rw [moves, List.splitOn_append_cons_self, List.flatMap_append]
  rfl

theorem moves_nil : moves [] = [] := by decide

/-- The text up to the last slash. -/
def parentText (path : Bytes) : Bytes :=
  (path.reverse.dropWhile (· ≠ slash)).reverse

/-- The text behind the last slash. -/
def lastText (path : Bytes) : Bytes :=
  (path.reverse.takeWhile (· ≠ slash)).reverse

theorem parentText_append_lastText (path : Bytes) : parentText path ++ lastText path = path := by
  rw [parentText, lastText, ← List.reverse_append, List.takeWhile_append_dropWhile,
    List.reverse_reverse]

theorem slash_notMem_lastText (path : Bytes) : slash ∉ lastText path := by
  intro h
  have hmem := List.mem_takeWhile_imp (List.mem_reverse.mp h)
  simp at hmem

theorem parentText_eq (path : Bytes) :
    parentText path = [] ∨ ∃ front, parentText path = front ++ [slash] := by
  have hhead := List.head?_dropWhile_not (· ≠ slash) path.reverse
  rw [parentText]
  generalize path.reverse.dropWhile (· ≠ slash) = rest at hhead ⊢
  cases rest with
  | nil => exact .inl rfl
  | cons c rest =>
      have hslash : c = slash := by simpa using hhead
      exact .inr ⟨rest.reverse, by simp [hslash]⟩

theorem moves_parentText_append (path more : Bytes) :
    moves (parentText path ++ more) = moves (parentText path) ++ moves more := by
  obtain hnil | ⟨front, hfront⟩ := parentText_eq path
  · rw [hnil, moves_nil]
    rfl
  · have hslash : moves (front ++ [slash]) = moves front := by
      rw [moves_append_slash, moves_nil, List.append_nil]
    rw [hfront, hslash, List.append_assoc, ← moves_append_slash]
    rfl

theorem moves_lastText (path : Bytes) : moves (lastText path) = move (lastText path) := by
  rw [moves, List.splitOn_eq_singleton (slash_notMem_lastText path)]
  simp

/-! ## Continued paths -/

/-- The way back over one component, from where it leads to where it begins. -/
def back (place : Place) : List (Move Bytes) → List (Move Bytes)
  | [] => []
  | .up :: _ => place.getLast?.toList.map .down
  | .down _ :: _ => [.up]

/-- How a path goes on from the place that its beginning `dir` names. The last component of `dir`
is taken again together with the text that follows it. -/
def continuation (cwd : Place) (dir more : Bytes) : List (Move Bytes) :=
  if dir = [] ∧ more.head? = some slash then List.replicate cwd.length .up ++ moves more
  else back (walk (base cwd dir) (moves (parentText dir))) (move (lastText dir)) ++
    moves (lastText dir ++ more)

theorem walk_back (place : Place) (component : Bytes) :
    walk (walk place (move component)) (back place (move component)) = place := by
  unfold move
  split
  · rfl
  · split
    · rcases List.eq_nil_or_concat place with rfl | ⟨front, last, rfl⟩
      · rfl
      · simp [walk, back]
    · simp [walk, back]

theorem walk_replicate_up (n : ℕ) :
    ∀ place : Place, place.length ≤ n → walk place (List.replicate n .up) = [] := by
  induction n with
  | zero =>
      intro place hlen
      have hempty : place.length = 0 := by omega
      exact List.length_eq_zero_iff.mp hempty
  | succ n ih =>
      intro place hlen
      exact ih place.dropLast (by rw [List.length_dropLast]; omega)

theorem base_append {cwd : Place} {dir more : Bytes}
    (h : ¬(dir = [] ∧ more.head? = some slash)) : base cwd (dir ++ more) = base cwd dir := by
  cases dir with
  | nil =>
      have hrelative : more.head? ≠ some slash := fun hslash => h ⟨rfl, hslash⟩
      simp [base, hrelative]
  | cons c dir => rfl

/-- From the place that `dir` names, its continuation leads where the whole path leads. -/
theorem walk_continuation (cwd : Place) (dir more : Bytes) :
    walk (walk (base cwd dir) (moves dir)) (continuation cwd dir more) =
      walk (base cwd (dir ++ more)) (moves (dir ++ more)) := by
  by_cases habsolute : dir = [] ∧ more.head? = some slash
  · obtain ⟨rfl, hslash⟩ := habsolute
    have hbase : base cwd [] = cwd := by simp [base]
    rw [moves_nil, hbase, walk, continuation, if_pos ⟨rfl, hslash⟩, walk_append,
      walk_replicate_up _ _ le_rfl, List.nil_append, base, if_pos hslash]
  · have hdir : moves dir = moves (parentText dir) ++ move (lastText dir) := by
      conv_lhs => rw [← parentText_append_lastText dir]
      rw [moves_parentText_append, moves_lastText]
    have hmore : moves (dir ++ more) =
        moves (parentText dir) ++ moves (lastText dir ++ more) := by
      conv_lhs => rw [← parentText_append_lastText dir, List.append_assoc]
      rw [moves_parentText_append]
    rw [hdir, hmore, base_append habsolute, continuation, if_neg habsolute]
    simp only [walk_append, walk_back]

/-! ## The text that the operating system sees -/

/-- What is seen of a text that follows `dir`. -/
def seenAfter (dir more : Bytes) : Bytes :=
  if 0 ∈ dir then [] else cString more

theorem cString_append (dir more : Bytes) :
    cString (dir ++ more) = cString dir ++ seenAfter dir more := by
  induction dir with
  | nil => simp [seenAfter, cString]
  | cons c dir ih =>
      simp only [cString, seenAfter] at ih ⊢
      by_cases hc : c = 0
      · simp [hc]
      · have hmem : 0 ∈ c :: dir ↔ 0 ∈ dir := by simp [Ne.symm hc]
        simpa [hc, hmem] using ih

/-- The place that a path names, from the place that its beginning names. -/
theorem resolve_append (cwd : Place) (dir more : Bytes) :
    resolve cwd (dir ++ more) =
      walk (resolve cwd dir) (continuation cwd (cString dir) (seenAfter dir more)) := by
  rw [resolve, resolve, walk_continuation, cString_append]

end FalconLink.FilePaths
