import Mathlib.Data.List.Chain
import Mathlib.Data.List.Nodup
import Mathlib.Logic.Function.Basic

/-! # Doubly linked chains

Cells are named by addresses of any type. `none` is the null pointer.
-/

namespace FalconLink

/-- The two link fields of every cell. -/
structure Links (α : Type*) where
  prev : α → Option α
  next : α → Option α

namespace Links

variable {α : Type*} [DecidableEq α]

def setPrev (L : Links α) (a : α) (p : Option α) : Links α :=
  { L with prev := Function.update L.prev a p }

def setNext (L : Links α) (a : α) (p : Option α) : Links α :=
  { L with next := Function.update L.next a p }

/-- `b` follows `a`, and both links between them agree. -/
def Adj (L : Links α) (a b : α) : Prop :=
  L.next a = some b ∧ L.prev b = some a

/-- Each cell of the list is linked both ways to the one after it. -/
def Chain (L : Links α) (xs : List α) : Prop :=
  xs.IsChain L.Adj

instance (L : Links α) (a b : α) : Decidable (L.Adj a b) :=
  inferInstanceAs (Decidable (_ ∧ _))

instance (L : Links α) (xs : List α) : Decidable (L.Chain xs) :=
  inferInstanceAs (Decidable (xs.IsChain L.Adj))

omit [DecidableEq α] in
/-- A chain reads `next` of all its cells but the last and `prev` of all but the first. -/
theorem Chain.congr {L L' : Links α} :
    ∀ {xs : List α}, L.Chain xs → (∀ a ∈ xs.dropLast, L'.next a = L.next a) →
      (∀ b ∈ xs.tail, L'.prev b = L.prev b) → L'.Chain xs := by
  intro xs
  induction xs with
  | nil => intros; exact List.IsChain.nil
  | cons a xs ih =>
      cases xs with
      | nil => intros; exact List.IsChain.singleton a
      | cons b xs =>
          intro h hnext hprev
          obtain ⟨hab, htail⟩ := List.isChain_cons_cons.mp h
          refine List.isChain_cons_cons.mpr ⟨⟨?_, ?_⟩, ih htail ?_ ?_⟩
          · rw [hnext a (by simp), hab.1]
          · rw [hprev b (by simp), hab.2]
          · intro c hc
            exact hnext c (by simp [List.dropLast_cons_of_ne_nil, hc])
          · intro c hc
            exact hprev c (List.mem_cons_of_mem b hc)

/-- Writes to cells off the chain do not disturb it. -/
theorem Chain.setNext_of_notMem {L : Links α} {xs : List α} {c : α} {p : Option α}
    (h : L.Chain xs) (hc : c ∉ xs.dropLast) : (L.setNext c p).Chain xs := by
  refine h.congr (fun a ha => ?_) (fun _ _ => rfl)
  exact Function.update_of_ne (ne_of_mem_of_not_mem ha hc) _ _

theorem Chain.setPrev_of_notMem {L : Links α} {xs : List α} {c : α} {p : Option α}
    (h : L.Chain xs) (hc : c ∉ xs.tail) : (L.setPrev c p).Chain xs := by
  refine h.congr (fun _ _ => rfl) (fun b hb => ?_)
  exact Function.update_of_ne (ne_of_mem_of_not_mem hb hc) _ _

/-- Take `n` out from between `p` and `q`. -/
def unlink (L : Links α) (p q : α) : Links α :=
  (L.setNext p (some q)).setPrev q (some p)

/-- Put `n` in between `p` and `t`. -/
def relink (L : Links α) (p n t : α) : Links α :=
  (((L.setNext p (some n)).setPrev t (some n)).setPrev n (some p)).setNext n (some t)

theorem Chain.unlink {L : Links α} {front back : List α} {p n q : α}
    (h : L.Chain (front ++ p :: n :: q :: back))
    (hd : (front ++ p :: n :: q :: back).Nodup) :
    (L.unlink p q).Chain (front ++ p :: q :: back) := by
  obtain ⟨hfront, -, htail⟩ := List.isChain_append_cons_cons.mp h
  obtain ⟨-, hback⟩ := List.isChain_cons_cons.mp htail
  have hpq : p ≠ q := by grind
  have hfront' : (L.unlink p q).Chain (front ++ [p]) := by
    refine Chain.setPrev_of_notMem (Chain.setNext_of_notMem hfront ?_) ?_
    · grind [List.dropLast_concat]
    · intro hq
      have := List.mem_of_mem_tail hq
      grind
  have hback' : (L.unlink p q).Chain (q :: back) := by
    refine Chain.setPrev_of_notMem (Chain.setNext_of_notMem hback ?_) ?_
    · intro hp
      have := List.dropLast_subset _ hp
      grind
    · grind
  refine List.isChain_append_cons_cons.mpr ⟨hfront', ⟨?_, ?_⟩, hback'⟩
  · simp [Links.unlink, setNext, setPrev]
  · simp [Links.unlink, setNext, setPrev]

theorem Chain.relink {L : Links α} {front : List α} {p n t : α}
    (h : L.Chain (front ++ [p, t])) (hd : (front ++ [p, t]).Nodup) (hn : n ∉ front ++ [p, t]) :
    (L.relink p n t).Chain (front ++ [p, n, t]) := by
  obtain ⟨hfront, -, -⟩ := List.isChain_append_cons_cons.mp h
  have hpn : n ≠ p := by grind
  have htn : n ≠ t := by grind
  have hpt : p ≠ t := by grind
  have hfront' : (L.relink p n t).Chain (front ++ [p]) := by
    refine Chain.setNext_of_notMem (Chain.setPrev_of_notMem (Chain.setPrev_of_notMem
      (Chain.setNext_of_notMem hfront ?_) ?_) ?_) ?_
    · grind [List.dropLast_concat]
    · intro hm
      have := List.mem_of_mem_tail hm
      grind
    · intro hm
      have := List.mem_of_mem_tail hm
      grind
    · grind [List.dropLast_concat]
  refine List.isChain_append_cons_cons.mpr ⟨hfront', ⟨?_, ?_⟩, List.isChain_cons_cons.mpr
    ⟨⟨?_, ?_⟩, List.IsChain.singleton t⟩⟩
  · simp [Links.relink, setNext, setPrev, Function.update_of_ne hpn.symm]
  · simp [Links.relink, setNext, setPrev]
  · simp [Links.relink, setNext, setPrev]
  · simp [Links.relink, setNext, setPrev, Function.update_of_ne htn.symm]

omit [DecidableEq α] in
/-- Following `next` from `a` to the first visit of `t` is deterministic. -/
theorem Chain.unique {L : Links α} {a t : α} :
    ∀ {xs ys : List α}, (a :: xs ++ [t]).IsChain (L.next · = some ·) →
      (a :: ys ++ [t]).IsChain (L.next · = some ·) → t ∉ xs → t ∉ ys → xs = ys := by
  intro xs
  induction xs generalizing a with
  | nil =>
      intro ys hx hy _ ht
      cases ys with
      | nil => rfl
      | cons y ys =>
          have h₁ : L.next a = some t := (List.isChain_cons_cons.mp hx).1
          have h₂ : L.next a = some y := (List.isChain_cons_cons.mp hy).1
          rw [h₁] at h₂
          exact absurd (Option.some.inj h₂) (by grind)
  | cons x xs ih =>
      intro ys hx hy htx ht
      cases ys with
      | nil =>
          have h₁ : L.next a = some x := (List.isChain_cons_cons.mp hx).1
          have h₂ : L.next a = some t := (List.isChain_cons_cons.mp hy).1
          rw [h₁] at h₂
          exact absurd (Option.some.inj h₂) (by grind)
      | cons y ys =>
          obtain ⟨h₁, hx'⟩ := List.isChain_cons_cons.mp hx
          obtain ⟨h₂, hy'⟩ := List.isChain_cons_cons.mp hy
          rw [h₁] at h₂
          obtain rfl := Option.some.inj h₂
          rw [ih hx' hy' (by grind) (by grind)]

omit [DecidableEq α] in
theorem Chain.nextChain {L : Links α} {xs : List α} (h : L.Chain xs) :
    xs.IsChain (L.next · = some ·) :=
  h.imp fun _ _ => And.left

end Links

end FalconLink
