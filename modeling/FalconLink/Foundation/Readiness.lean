import Mathlib.Data.List.Basic
import Mathlib.Data.List.Nodup
import Mathlib.Data.Nat.Notation

/-! # Ready lists

A source is put on a list when something happens at it. A harvest takes the first listed sources
that are still pending, up to a limit.
-/

namespace FalconLink.Readiness

variable {C : Type*}

/-- A source is listed once, behind those that have been listed before. -/
def signal [DecidableEq C] (ready : List C) (c : C) : List C :=
  if c ∈ ready then ready else ready ++ [c]

/-- The first `limit` pending sources, and what is left of the list. Sources on the way that are
not pending any more are dropped. -/
def harvest (pending : C → Bool) : ℕ → List C → List C × List C
  | 0, ready => ([], ready)
  | _ + 1, [] => ([], [])
  | limit + 1, c :: ready =>
      if pending c then
        (c :: (harvest pending limit ready).1, (harvest pending limit ready).2)
      else harvest pending (limit + 1) ready

/-! ## Signals -/

section

variable [DecidableEq C] {ready : List C} {c d : C}

@[simp] theorem mem_signal : d ∈ signal ready c ↔ d ∈ ready ∨ d = c := by
  rw [signal]
  split
  · rename_i h
    constructor
    · exact Or.inl
    · rintro (hd | rfl)
      · exact hd
      · exact h
  · simp

theorem nodup_signal (h : ready.Nodup) (c : C) : (signal ready c).Nodup := by
  rw [signal]
  split
  · exact h
  · rename_i hc
    refine List.nodup_append.mpr ⟨h, List.nodup_singleton c, fun d hd e he => ?_⟩
    rintro rfl
    exact hc (List.mem_singleton.mp he ▸ hd)

/-- A signal does not move a source that is listed. -/
theorem idxOf_signal (hd : d ∈ ready) (c : C) : (signal ready c).idxOf d = ready.idxOf d := by
  rw [signal]
  split
  · rfl
  · exact List.idxOf_append_of_mem hd

/-- Taking another source off the list does not move a source back. -/
theorem idxOf_erase_le (h : c ≠ d) : (ready.erase c).idxOf d ≤ ready.idxOf d := by
  induction ready with
  | nil => simp
  | cons e ready ih =>
      by_cases hec : e = c
      · rw [hec, List.erase_cons_head, List.idxOf_cons_ne _ h]
        omega
      · rw [List.erase_cons_tail (by simpa using hec)]
        by_cases hed : e = d
        · simp [hed]
        · rw [List.idxOf_cons_ne _ hed, List.idxOf_cons_ne _ hed]
          omega

end

/-! ## Harvests -/

section

variable {pending : C → Bool} {ready : List C} {c : C}

theorem harvest_append (pending : C → Bool) (limit : ℕ) (ready : List C) :
    ∃ front, ready = front ++ (harvest pending limit ready).2 ∧
      (harvest pending limit ready).1 = front.filter pending := by
  induction ready generalizing limit with
  | nil => cases limit <;> exact ⟨[], rfl, rfl⟩
  | cons c ready ih =>
      cases limit with
      | zero => exact ⟨[], rfl, rfl⟩
      | succ limit =>
          rw [harvest]
          split
          · rename_i hc
            obtain ⟨front, hready, hbatch⟩ := ih limit
            exact ⟨c :: front, congrArg (c :: ·) hready, by rw [hbatch, List.filter_cons_of_pos hc]⟩
          · rename_i hc
            obtain ⟨front, hready, hbatch⟩ := ih (limit + 1)
            exact ⟨c :: front, congrArg (c :: ·) hready, by rw [hbatch, List.filter_cons_of_neg hc]⟩

/-- A harvest that leaves something on the list has taken as much as it can. -/
theorem harvest_full (pending : C → Bool) (limit : ℕ) (ready : List C)
    (h : (harvest pending limit ready).2 ≠ []) :
    (harvest pending limit ready).1.length = limit := by
  induction ready generalizing limit with
  | nil => cases limit <;> exact absurd rfl h
  | cons c ready ih =>
      cases limit with
      | zero => rfl
      | succ limit =>
          rw [harvest] at h ⊢
          split at h
          · rename_i hc
            rw [if_pos hc, List.length_cons, ih limit h]
          · rename_i hc
            rw [if_neg hc, ih (limit + 1) h]

theorem mem_of_mem_harvest {limit : ℕ} (h : c ∈ (harvest pending limit ready).1) :
    c ∈ ready ∧ pending c = true := by
  obtain ⟨front, hready, hbatch⟩ := harvest_append pending limit ready
  rw [hbatch, List.mem_filter] at h
  exact ⟨hready ▸ List.mem_append_left _ h.1, h.2⟩

theorem mem_of_mem_rest {limit : ℕ} (h : c ∈ (harvest pending limit ready).2) : c ∈ ready := by
  obtain ⟨front, hready, -⟩ := harvest_append pending limit ready
  rw [hready]
  exact List.mem_append_right front h

/-- A pending source is harvested or stays on the list. -/
theorem mem_harvest_or_mem_rest (limit : ℕ) (hc : c ∈ ready) (hpending : pending c = true) :
    c ∈ (harvest pending limit ready).1 ∨ c ∈ (harvest pending limit ready).2 := by
  obtain ⟨front, hready, hbatch⟩ := harvest_append pending limit ready
  rw [hready] at hc
  rcases List.mem_append.mp hc with hfront | hrest
  · exact .inl (hbatch ▸ List.mem_filter.mpr ⟨hfront, hpending⟩)
  · exact .inr hrest

theorem nodup_harvest (h : ready.Nodup) (limit : ℕ) :
    (harvest pending limit ready).1.Nodup ∧ (harvest pending limit ready).2.Nodup := by
  obtain ⟨front, hready, hbatch⟩ := harvest_append pending limit ready
  rw [hready] at h
  obtain ⟨hfront, hrest, -⟩ := List.nodup_append.mp h
  exact ⟨hbatch ▸ hfront.filter pending, hrest⟩

/-- A pending source that is not harvested moves up by the limit. -/
theorem idxOf_rest_le [DecidableEq C] {limit : ℕ} (hc : c ∈ ready) (hpending : pending c = true)
    (hnot : c ∉ (harvest pending limit ready).1) :
    (harvest pending limit ready).2.idxOf c + limit ≤ ready.idxOf c := by
  have hrest := (mem_harvest_or_mem_rest limit hc hpending).resolve_left hnot
  have hfull := harvest_full pending limit ready (List.ne_nil_of_mem hrest)
  obtain ⟨front, hready, hbatch⟩ := harvest_append pending limit ready
  have hfront : c ∉ front := fun hmem => hnot (hbatch ▸ List.mem_filter.mpr ⟨hmem, hpending⟩)
  have hle := List.length_filter_le pending front
  have hidx := congrArg (List.idxOf c) hready
  rw [List.idxOf_append_of_notMem hfront] at hidx
  rw [hbatch] at hfull
  omega

/-- Nothing is harvested when nothing that is listed is pending. -/
theorem harvest_eq_nil_iff {limit : ℕ} (hlimit : 0 < limit) :
    (harvest pending limit ready).1 = [] ↔ ∀ c ∈ ready, pending c = false := by
  constructor
  · intro hnil c hc
    cases hpending : pending c with
    | false => rfl
    | true =>
        have hrest := (mem_harvest_or_mem_rest limit hc hpending).resolve_left (by simp [hnil])
        have hfull := harvest_full pending limit ready (List.ne_nil_of_mem hrest)
        rw [hnil, List.length_nil] at hfull
        omega
  · intro hnone
    rw [List.eq_nil_iff_forall_not_mem]
    intro c hc
    have hmem := mem_of_mem_harvest hc
    rw [hnone c hmem.1] at hmem
    exact Bool.false_ne_true hmem.2

end

end FalconLink.Readiness
