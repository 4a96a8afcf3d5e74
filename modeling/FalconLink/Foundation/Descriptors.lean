import Mathlib.Data.List.Basic

/-! # Descriptors of processes and epoll

The descriptors of all processes refer to open file descriptions. A description is closed with
its last descriptor, and its epoll registrations go with it.
-/

namespace FalconLink.Descriptors

abbrev Fd := ℕ

/-- The identity of an open file description. -/
abbrev Description := ℕ

structure Descriptor where
  fd : Fd
  description : Description
  closeOnExec : Bool
  deriving DecidableEq, Repr

/-- The descriptors of one process. -/
abbrev Table := List Descriptor

namespace Table

def lookup (t : Table) (fd : Fd) : Option Descriptor :=
  t.find? fun d => d.fd = fd

def close (t : Table) (fd : Fd) : Table :=
  t.filter fun d => d.fd ≠ fd

/-- What a process keeps when it executes another program. -/
def exec (t : Table) : Table :=
  t.filter fun d => !d.closeOnExec

def refersTo (t : Table) (description : Description) : Bool :=
  t.any fun d => d.description = description

end Table

/-- An entry of an epoll instance. -/
structure Registration (α : Type) where
  fd : Fd
  description : Description
  data : α
  deriving DecidableEq, Repr

/-- `EPOLL_CTL_ADD`. A pair of a descriptor and its description can be registered once. -/
def epollCtlAdd {α : Type} (regs : List (Registration α)) (reg : Registration α) :
    List (Registration α) :=
  if regs.any fun r => r.fd = reg.fd && r.description = reg.description then regs else reg :: regs

theorem epollCtlAdd_subset {α : Type} (regs : List (Registration α)) (reg : Registration α) :
    regs ⊆ epollCtlAdd regs reg := by
  rw [epollCtlAdd]
  split
  · exact List.Subset.refl regs
  · exact List.subset_cons_self reg regs

theorem mem_of_mem_epollCtlAdd {α : Type} {regs : List (Registration α)} {reg r : Registration α}
    (h : r ∈ epollCtlAdd regs reg) : r = reg ∨ r ∈ regs := by
  rw [epollCtlAdd] at h
  split at h
  · exact Or.inr h
  · exact List.mem_cons.mp h

namespace Table

variable {t : Table} {fd : Fd} {fresh : Description}

theorem mem_of_lookup {d : Descriptor} (h : t.lookup fd = some d) : d ∈ t ∧ d.fd = fd :=
  ⟨List.mem_of_find?_eq_some h, by simpa using List.find?_some h⟩

theorem mem_close {d : Descriptor} : d ∈ t.close fd ↔ d ∈ t ∧ d.fd ≠ fd := by
  simp [close, List.mem_filter]

theorem refersTo_iff {description : Description} :
    t.refersTo description = true ↔ ∃ d ∈ t, d.description = description := by
  simp [refersTo]

/-- No two descriptors share their number or their description, and the descriptions are older
than `fresh`. -/
structure Wf (t : Table) (fresh : Description) : Prop where
  fds : ∀ d ∈ t, ∀ e ∈ t, d.fd = e.fd → d = e
  descriptions : ∀ d ∈ t, ∀ e ∈ t, d.description = e.description → d = e
  older : ∀ d ∈ t, d.description < fresh

theorem wf_nil : Wf [] 0 where
  fds _ h := by cases h
  descriptions _ h := by cases h
  older _ h := by cases h

/-- A new description under a number that is not in use. -/
theorem Wf.cons (h : t.Wf fresh) (hfd : ∀ d ∈ t, d.fd ≠ fd) (closeOnExec : Bool) :
    Wf (⟨fd, fresh, closeOnExec⟩ :: t) (fresh + 1) where
  fds d hd e he heq := by
    rcases List.mem_cons.mp hd with rfl | hd
    · rcases List.mem_cons.mp he with rfl | he
      · rfl
      · exact absurd heq.symm (hfd e he)
    · rcases List.mem_cons.mp he with rfl | he
      · exact absurd heq (hfd d hd)
      · exact h.fds d hd e he heq
  descriptions d hd e he heq := by
    rcases List.mem_cons.mp hd with rfl | hd
    · rcases List.mem_cons.mp he with rfl | he
      · rfl
      · exact absurd heq (Nat.ne_of_gt (h.older e he))
    · rcases List.mem_cons.mp he with rfl | he
      · exact absurd heq (Nat.ne_of_lt (h.older d hd))
      · exact h.descriptions d hd e he heq
  older d hd := by
    rcases List.mem_cons.mp hd with rfl | hd
    · exact Nat.lt_succ_self fresh
    · exact Nat.lt_succ_of_lt (h.older d hd)

theorem Wf.lookup_eq (h : t.Wf fresh) {d : Descriptor} (hd : d ∈ t) : t.lookup d.fd = some d := by
  cases hlookup : t.lookup d.fd with
  | none => simpa using List.find?_eq_none.mp hlookup d hd
  | some e =>
      rcases mem_of_lookup hlookup with ⟨he, hfd⟩
      rw [h.fds e he d hd hfd]

theorem Wf.close (h : t.Wf fresh) (fd : Fd) : (t.close fd).Wf fresh where
  fds d hd e he := h.fds d (mem_close.mp hd).1 e (mem_close.mp he).1
  descriptions d hd e he := h.descriptions d (mem_close.mp hd).1 e (mem_close.mp he).1
  older d hd := h.older d (mem_close.mp hd).1

/-- The only descriptor of a description is closed with it. -/
theorem Wf.not_refersTo_close (h : t.Wf fresh) {d : Descriptor} (hd : d ∈ t) :
    (t.close d.fd).refersTo d.description = false := by
  rw [Bool.eq_false_iff, ne_eq, refersTo_iff]
  intro hrefers
  rcases hrefers with ⟨e, he, heq⟩
  rw [mem_close] at he
  exact he.2 (by rw [h.descriptions e he.1 d hd heq])

end Table

end FalconLink.Descriptors
