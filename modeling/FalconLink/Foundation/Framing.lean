import FalconLink.Foundation.Search

/-! # Cutting a stream into frames

A frame ends at the first occurrence of a delimiter. Popping frames from a growing
buffer and cutting the complete stream give the same frames.
-/

namespace FalconLink.Framing

open Search

variable {α : Type*} [DecidableEq α]

/-- The first frame of a buffer, delimiter included, and what follows it. -/
def popFrame (delim buf : List α) : Option (List α × List α) :=
  (firstMatch delim buf).map fun pos =>
    (buf.take (pos + delim.length), buf.drop (pos + delim.length))

theorem popFrame_eq_some {delim buf frame rest : List α}
    (h : popFrame delim buf = some (frame, rest)) :
    ∃ pos, firstMatch delim buf = some pos ∧ frame.length = pos + delim.length ∧
      frame ++ rest = buf := by
  obtain ⟨pos, hpos, heq⟩ := Option.map_eq_some_iff.mp h
  obtain ⟨rfl, rfl⟩ := Prod.mk.inj heq
  have hlen := (firstMatch_spec hpos).2.1
  exact ⟨pos, hpos, by simp; omega, List.take_append_drop _ _⟩

theorem popFrame_eq_none_iff {delim buf : List α} :
    popFrame delim buf = none ↔ ¬delim <:+: buf := by
  rw [popFrame, Option.map_eq_none_iff, firstMatch_eq_none_iff]

theorem popFrame_rest_length {delim buf frame rest : List α} (hd : delim ≠ [])
    (h : popFrame delim buf = some (frame, rest)) : rest.length < buf.length := by
  obtain ⟨pos, -, hframe, rfl⟩ := popFrame_eq_some h
  have hpos : 0 < delim.length := List.length_pos_iff.mpr hd
  simp only [List.length_append]
  omega

/-- A frame that is already complete is not changed by what arrives later. -/
theorem popFrame_append {delim buf frame rest : List α} (more : List α)
    (h : popFrame delim buf = some (frame, rest)) :
    popFrame delim (buf ++ more) = some (frame, rest ++ more) := by
  obtain ⟨pos, hpos, hframe, rfl⟩ := popFrame_eq_some h
  rw [popFrame, firstMatch_append more hpos, Option.map_some, ← hframe]
  simp [List.append_assoc]

/-- Pop at most `fuel` frames. -/
def drainAux (delim : List α) : ℕ → List α → List (List α) × List α
  | 0, buf => ([], buf)
  | fuel + 1, buf =>
      match popFrame delim buf with
      | none => ([], buf)
      | some (frame, rest) =>
          (frame :: (drainAux delim fuel rest).1, (drainAux delim fuel rest).2)

/-- All complete frames of a buffer, and the incomplete rest. -/
def drain (delim buf : List α) : List (List α) × List α :=
  drainAux delim buf.length buf

theorem drainAux_eq_drain {delim : List α} (hd : delim ≠ []) (fuel : ℕ) (buf : List α)
    (h : buf.length ≤ fuel) : drainAux delim fuel buf = drain delim buf := by
  unfold drain
  induction hn : buf.length using Nat.strong_induction_on generalizing buf fuel with
  | _ n ih =>
      subst hn
      cases hpop : popFrame delim buf with
      | none => cases fuel <;> cases hlen : buf.length <;> simp [drainAux, hpop]
      | some pair =>
          obtain ⟨frame, rest⟩ := pair
          have hlt := popFrame_rest_length hd hpop
          obtain ⟨n, hn⟩ : ∃ n, buf.length = n + 1 := ⟨buf.length - 1, by omega⟩
          obtain ⟨m, rfl⟩ : ∃ m, fuel = m + 1 := ⟨fuel - 1, by omega⟩
          simp only [hn, drainAux, hpop]
          rw [ih rest.length hlt m rest (by omega) rfl, ih rest.length hlt n rest (by omega) rfl]

theorem drain_of_none {delim buf : List α} (h : popFrame delim buf = none) :
    drain delim buf = ([], buf) := by
  unfold drain
  cases buf.length <;> simp [drainAux, h]

theorem drain_of_some {delim buf frame rest : List α} (hd : delim ≠ [])
    (h : popFrame delim buf = some (frame, rest)) :
    drain delim buf = (frame :: (drain delim rest).1, (drain delim rest).2) := by
  have hlt := popFrame_rest_length hd h
  obtain ⟨n, hn⟩ : ∃ n, buf.length = n + 1 := ⟨buf.length - 1, by omega⟩
  rw [drain, hn]
  simp only [drainAux, h]
  rw [drainAux_eq_drain hd n rest (by omega)]

/-- Induction along the pops of a buffer. -/
theorem drain_induction {delim : List α} (hd : delim ≠ []) {motive : List α → Prop}
    (incomplete : ∀ buf, popFrame delim buf = none → motive buf)
    (frame : ∀ buf frame rest, popFrame delim buf = some (frame, rest) → motive rest → motive buf)
    (buf : List α) : motive buf := by
  induction hn : buf.length using Nat.strong_induction_on generalizing buf with
  | _ n ih =>
      cases hpop : popFrame delim buf with
      | none => exact incomplete buf hpop
      | some pair =>
          have hlt := popFrame_rest_length hd hpop
          exact frame buf pair.1 pair.2 hpop (ih _ (hn ▸ hlt) pair.2 rfl)

theorem drain_rest {delim : List α} (hd : delim ≠ []) (buf : List α) :
    popFrame delim (drain delim buf).2 = none := by
  induction buf using drain_induction hd with
  | incomplete buf h => simpa [drain_of_none h] using h
  | frame buf frame rest h ih => simpa [drain_of_some hd h] using ih

/-- Draining twice, around an arrival, pops what one drain pops after it. -/
theorem drain_append {delim : List α} (hd : delim ≠ []) (buf more : List α) :
    drain delim (buf ++ more) =
      ((drain delim buf).1 ++ (drain delim ((drain delim buf).2 ++ more)).1,
        (drain delim ((drain delim buf).2 ++ more)).2) := by
  induction buf using drain_induction hd with
  | incomplete buf h => simp [drain_of_none h]
  | frame buf frame rest h ih =>
      rw [drain_of_some hd (popFrame_append more h), ih, drain_of_some hd h]
      simp

/-- Frames that are popped one by one are cut in a row. -/
theorem drain_flatMap {β : Type*} {delim : List α} (hd : delim ≠ []) {encode : β → List α}
    (h : ∀ x more, popFrame delim (encode x ++ more) = some (encode x, more)) (xs : List β) :
    drain delim (xs.flatMap encode) = (xs.map encode, []) := by
  induction xs with
  | nil =>
      refine drain_of_none (popFrame_eq_none_iff.mpr fun hnil => hd ?_)
      simpa using hnil
  | cons x xs ih => rw [List.flatMap_cons, drain_of_some hd (h x _), ih, List.map_cons]

/-- A popped frame is complete in itself. -/
theorem popFrame_frame {delim buf frame rest : List α}
    (h : popFrame delim buf = some (frame, rest)) :
    popFrame delim frame = some (frame, []) := by
  obtain ⟨pos, hpos, hlen, rfl⟩ := popFrame_eq_some h
  have hocc := (firstMatch_spec hpos).1
  rw [List.drop_append_of_le_length (by omega)] at hocc
  have hend : delim <+: frame.drop pos := by
    refine List.prefix_of_prefix_length_le hocc (List.prefix_append _ rest) ?_
    rw [List.length_drop]
    omega
  cases hfirst : firstMatch delim frame with
  | none =>
      exact absurd (hend.isInfix.trans (List.drop_suffix _ _).isInfix)
        (firstMatch_eq_none_iff.mp hfirst)
  | some first =>
      obtain rfl := Option.some.inj ((firstMatch_append rest hfirst).symm.trans hpos)
      rw [popFrame, hfirst, Option.map_some, ← hlen, List.take_length, List.drop_length]

/-- A frame holds the delimiter once, at its end. -/
theorem popFrame_occurs_iff {delim frame : List α} (hd : delim ≠ [])
    (h : popFrame delim frame = some (frame, [])) (pos : ℕ) :
    delim <+: frame.drop pos ↔ pos + delim.length = frame.length := by
  obtain ⟨first, hfirst, hlen, -⟩ := popFrame_eq_some h
  obtain ⟨hocc, -, hmin⟩ := firstMatch_spec hfirst
  have hpositive : 0 < delim.length := List.length_pos_iff.mpr hd
  constructor
  · intro hpos
    have hle := hpos.length_le
    rw [List.length_drop] at hle
    have hnot : ¬pos < first := fun hlt => hmin pos hlt hpos
    omega
  · intro hpos
    rwa [show pos = first by omega]

/-- `Pops delim buf frames rest`: popping frames one after the other from `buf` gives `frames`
and leaves `rest`. -/
inductive Pops (delim : List α) : List α → List (List α) → List α → Prop where
  | nil (buf : List α) : Pops delim buf [] buf
  | cons {buf frame rest left : List α} {frames : List (List α)}
      (hpop : popFrame delim buf = some (frame, rest)) (hrest : Pops delim rest frames left) :
      Pops delim buf (frame :: frames) left

theorem Pops.initial {delim buf left : List α} {frames : List (List α)} (hd : delim ≠ [])
    (h : Pops delim buf frames left) : frames <+: (drain delim buf).1 := by
  induction h with
  | nil => exact List.nil_prefix
  | cons hpop hrest ih =>
      rw [drain_of_some hd hpop]
      exact (List.prefix_cons_inj _).mpr ih

end FalconLink.Framing
