import Mathlib.Data.Nat.Notation

/-! # Programs over an instruction set

A program is a tree of instructions. It can be run to its end by one thread or one
instruction at a time among the instructions of other threads.
-/

namespace FalconLink

/-- A program over the instructions `I`. Instruction `i` is answered by a value of type
`R i`; the program ends with a result or with an exception. -/
inductive Prog (I : Type) (R : I → Type) (ε : Type) (α : Type) where
  | ret (a : α)
  | fail (e : ε)
  | call (i : I) (next : R i → Prog I R ε α)

namespace Prog

variable {I : Type} {R : I → Type} {ε α β σ : Type}

def bind : Prog I R ε α → (α → Prog I R ε β) → Prog I R ε β
  | ret a, f => f a
  | fail e, _ => fail e
  | call i next, f => call i fun r => (next r).bind f

instance : Monad (Prog I R ε) where
  pure := ret
  bind := bind

/-- The program of a single instruction. -/
def op (i : I) : Prog I R ε (R i) :=
  call i ret

@[simp] theorem pure_eq (a : α) : (pure a : Prog I R ε α) = ret a := rfl

@[simp] theorem ret_bind (a : α) (f : α → Prog I R ε β) : ret a >>= f = f a := rfl

@[simp] theorem call_bind (i : I) (next : R i → Prog I R ε α) (f : α → Prog I R ε β) :
    call i next >>= f = call i fun r => next r >>= f := rfl

@[simp] theorem op_bind (i : I) (f : R i → Prog I R ε β) : op i >>= f = call i f := rfl

theorem call_congr {i : I} {f g : R i → Prog I R ε α} (h : ∀ r, f r = g r) :
    call i f = call i g :=
  congrArg (call i) (funext h)

theorem bind_congr {p : Prog I R ε α} {f g : α → Prog I R ε β} (h : ∀ a, f a = g a) :
    p >>= f = p >>= g :=
  congrArg (p >>= ·) (funext h)

/-- What an instruction does to the state, and its answer. -/
abbrev Exec (I : Type) (R : I → Type) (ε σ : Type) :=
  (i : I) → σ → Except ε (R i × σ)

/-- Run a program to its end with nobody else touching the state. -/
def run (exec : Exec I R ε σ) : Prog I R ε α → σ → Except ε (α × σ)
  | ret a, s => .ok (a, s)
  | fail e, _ => .error e
  | call i next, s =>
      match exec i s with
      | .ok (r, s') => (next r).run exec s'
      | .error e => .error e

/-- One instruction of a program. A program that has ended has no step. -/
def step (exec : Exec I R ε σ) : Prog I R ε α → σ → Option (Except ε (Prog I R ε α × σ))
  | ret _, _ => none
  | fail _, _ => none
  | call i next, s => some ((exec i s).map fun answer => (next answer.1, answer.2))

variable {exec : Exec I R ε σ}

@[simp] theorem run_ret (a : α) (s : σ) :
    (ret a : Prog I R ε α).run exec s = .ok (a, s) := rfl

theorem run_call_ok {i : I} {next : R i → Prog I R ε α} {s t : σ} {r : R i}
    (h : exec i s = .ok (r, t)) : (call i next).run exec s = (next r).run exec t := by
  simp [run, h]

/-- The bind rule: once the first part has returned, only the rest is left to run. -/
theorem run_bind_ok {p : Prog I R ε α} {f : α → Prog I R ε β} {s s' : σ} {a : α}
    (h : p.run exec s = .ok (a, s')) : (p >>= f).run exec s = (f a).run exec s' := by
  induction p generalizing s with
  | ret b =>
      obtain ⟨rfl, rfl⟩ := Prod.mk.inj (Except.ok.inj h)
      rfl
  | fail e => cases h
  | call i next ih =>
      simp only [run] at h
      rw [call_bind, run]
      split at h
      · rename_i r t hexec
        simpa [hexec] using ih r h
      · cases h

/-- A program whose run returns does not get stuck on its next instruction. -/
theorem exists_step {i : I} {next : R i → Prog I R ε α} {s : σ} {out : α × σ}
    (h : (call i next).run exec s = .ok out) :
    ∃ r s', exec i s = .ok (r, s') ∧ (next r).run exec s' = .ok out := by
  simp only [run] at h
  split at h
  · exact ⟨_, _, by assumption, h⟩
  · cases h

/-- The results that some answers to its instructions lead to. -/
inductive Returns : Prog I R ε α → α → Prop where
  | ret (a : α) : Returns (.ret a) a
  | call {i : I} {next : R i → Prog I R ε α} {a : α} (r : R i) (h : Returns (next r) a) :
      Returns (.call i next) a

@[simp] theorem returns_ret {a b : α} : Returns (.ret a : Prog I R ε α) b ↔ b = a := by
  constructor
  · intro h
    cases h
    rfl
  · rintro rfl
    exact .ret b

@[simp] theorem returns_call {i : I} {next : R i → Prog I R ε α} {a : α} :
    Returns (.call i next) a ↔ ∃ r, Returns (next r) a := by
  constructor
  · intro h
    cases h with
    | call r h => exact ⟨r, h⟩
  · rintro ⟨r, h⟩
    exact .call r h

/-- A result that a program is run to is one that it can return. -/
theorem returns_of_run {p : Prog I R ε α} {s s' : σ} {a : α} (h : p.run exec s = .ok (a, s')) :
    Returns p a := by
  induction p generalizing s with
  | ret b =>
      obtain ⟨rfl, rfl⟩ := Prod.mk.inj (Except.ok.inj h)
      exact .ret b
  | fail e => cases h
  | call i next ih =>
      obtain ⟨r, t, -, hnext⟩ := exists_step h
      exact .call r (ih r hnext)

/-- The instructions that a run performs, also the one that ends it with an exception. -/
def trace (exec : Exec I R ε σ) : Prog I R ε α → σ → List I
  | ret _, _ => []
  | fail _, _ => []
  | call i next, s =>
      i :: match exec i s with
        | .ok (r, s') => (next r).trace exec s'
        | .error _ => []

theorem mem_trace_head (i : I) (next : R i → Prog I R ε α) (s : σ) :
    i ∈ (call i next).trace exec s := by
  simp [trace]

theorem mem_trace_next {i j : I} {next : R i → Prog I R ε α} {s t : σ} {r : R i}
    (h : exec i s = .ok (r, t)) (hj : j ∈ (next r).trace exec t) :
    j ∈ (call i next).trace exec s := by
  simp [trace, h, hj]

/-- Every instruction of the program satisfies `P`, whatever the ones before it are answered. -/
def Only (P : I → Prop) : Prog I R ε α → Prop
  | ret _ => True
  | fail _ => True
  | call i next => P i ∧ ∀ r, Only P (next r)

theorem Only.trace {P : I → Prop} {p : Prog I R ε α} (h : Only P p) :
    ∀ s, ∀ i ∈ p.trace exec s, P i := by
  induction p with
  | ret a => simp [Prog.trace]
  | fail e => simp [Prog.trace]
  | call i next ih =>
      intro s j hj
      rw [Prog.trace] at hj
      cases List.mem_cons.mp hj with
      | inl heq => exact heq ▸ h.1
      | inr hj =>
          split at hj
          · exact ih _ (h.2 _) _ j hj
          · simp at hj

theorem Only.bind {P : I → Prop} {p : Prog I R ε α} {f : α → Prog I R ε β} (hp : Only P p)
    (hf : ∀ a, Only P (f a)) : Only P (p >>= f) := by
  induction p with
  | ret a => exact hf a
  | fail e => exact trivial
  | call i next ih => exact ⟨hp.1, fun r => ih r (hp.2 r)⟩

end Prog

end FalconLink
