import Mathlib.Data.List.Basic
import Mathlib.Data.Sigma.Basic

/-! # Operations that take effect at one moment

The threads of `T` operate on one object. `perform` is what an operation answers, and what it makes of
the object, when it is the only one. A run leaves a mark where an operation takes effect and where
it returns.
-/

namespace FalconLink.Linearization

inductive Mark (T O : Type*) (R : O → Type*) where
  | effect (t : T) (o : O)
  | returned (t : T) (o : O) (out : R o)

variable {T O α : Type*} {R : O → Type*}

/-- The operations in the order in which they take effect. -/
def effects : List (Mark T O R) → List (T × O)
  | [] => []
  | .effect t o :: marks => (t, o) :: effects marks
  | .returned _ _ _ :: marks => effects marks

/-- What the operations of one thread have returned. -/
def returns [DecidableEq T] (t : T) : List (Mark T O R) → List (Σ o, R o)
  | [] => []
  | .effect _ _ :: marks => returns t marks
  | .returned u o out :: marks => if u = t then ⟨o, out⟩ :: returns t marks else returns t marks

/-- The object after one operation at a time. -/
def after (perform : (o : O) → α → R o × α) : List (T × O) → α → α
  | [], a => a
  | (_, o) :: rest, a => after perform rest (perform o a).2

/-- What the operations of one thread answer when they are performed one at a time. -/
def answers [DecidableEq T] (perform : (o : O) → α → R o × α) (t : T) :
    List (T × O) → α → List (Σ o, R o)
  | [], _ => []
  | (u, o) :: rest, a =>
      if u = t then ⟨o, (perform o a).1⟩ :: answers perform t rest (perform o a).2
      else answers perform t rest (perform o a).2

/-- Every thread has got the answers of the operations one at a time, in the order in which they
took effect, each between its call and its return: what a thread has been answered is what its calls
have returned, and then its present call if that has taken effect. -/
def Linearized [DecidableEq T] (perform : (o : O) → α → R o × α) (a : α) (idle : T → Prop)
    (marks : List (Mark T O R)) : Prop :=
  ∀ t, ∃ current, answers perform t (effects marks) a = returns t marks ++ current ∧
    current.length ≤ 1 ∧ (idle t → current = [])

theorem effects_append (marks marks' : List (Mark T O R)) :
    effects (marks ++ marks') = effects marks ++ effects marks' := by
  induction marks with
  | nil => rfl
  | cons mark marks ih =>
      cases mark with
      | effect t o => rw [List.cons_append, effects, effects, ih, List.cons_append]
      | returned t o out => rw [List.cons_append, effects, effects, ih]

theorem after_append (perform : (o : O) → α → R o × α) (ops ops' : List (T × O)) (a : α) :
    after perform (ops ++ ops') a = after perform ops' (after perform ops a) := by
  induction ops generalizing a with
  | nil => rfl
  | cons op ops ih => exact ih _

theorem after_effect (perform : (o : O) → α → R o × α) (marks : List (Mark T O R)) (t : T) (o : O)
    (a : α) : after perform (effects (marks ++ [.effect t o])) a =
      (perform o (after perform (effects marks) a)).2 := by
  rw [effects_append, after_append]
  rfl

theorem effects_returned (marks : List (Mark T O R)) (t : T) (o : O) (out : R o) :
    effects (marks ++ [.returned t o out]) = effects marks := by
  rw [effects_append]
  exact List.append_nil _

section Threads

variable [DecidableEq T]

theorem returns_append (t : T) (marks marks' : List (Mark T O R)) :
    returns t (marks ++ marks') = returns t marks ++ returns t marks' := by
  induction marks with
  | nil => rfl
  | cons mark marks ih =>
      cases mark with
      | effect u o => rw [List.cons_append, returns, returns, ih]
      | returned u o out =>
          rw [List.cons_append, returns, returns, ih]
          split <;> rfl

theorem answers_append (perform : (o : O) → α → R o × α) (t : T) (ops ops' : List (T × O)) (a : α) :
    answers perform t (ops ++ ops') a =
      answers perform t ops a ++ answers perform t ops' (after perform ops a) := by
  induction ops generalizing a with
  | nil => rfl
  | cons op ops ih =>
      rw [List.cons_append, answers, answers, after, ih]
      split <;> rfl

theorem answers_effect (perform : (o : O) → α → R o × α) (marks : List (Mark T O R)) (t : T) (o : O)
    (a : α) : answers perform t (effects (marks ++ [.effect t o])) a =
      answers perform t (effects marks) a ++
        [⟨o, (perform o (after perform (effects marks) a)).1⟩] := by
  rw [effects_append, answers_append, effects, answers, if_pos rfl]
  rfl

theorem answers_effect_of_ne (perform : (o : O) → α → R o × α) (marks : List (Mark T O R)) {t u : T}
    (hne : u ≠ t) (o : O) (a : α) : answers perform t (effects (marks ++ [.effect u o])) a =
      answers perform t (effects marks) a := by
  rw [effects_append, answers_append, effects, answers, if_neg hne]
  exact List.append_nil _

theorem returns_effect (t u : T) (marks : List (Mark T O R)) (o : O) :
    returns t (marks ++ [.effect u o]) = returns t marks := by
  rw [returns_append]
  exact List.append_nil _

theorem returns_returned (marks : List (Mark T O R)) (t : T) (o : O) (out : R o) :
    returns t (marks ++ [.returned t o out]) = returns t marks ++ [⟨o, out⟩] := by
  rw [returns_append, returns, if_pos rfl]
  rfl

theorem returns_returned_of_ne (marks : List (Mark T O R)) {t u : T} (hne : u ≠ t) (o : O)
    (out : R o) : returns t (marks ++ [.returned u o out]) = returns t marks := by
  rw [returns_append, returns, if_neg hne]
  exact List.append_nil _

end Threads

end FalconLink.Linearization
