import Mathlib.Data.List.Forall2
import Mathlib.Data.Nat.Notation

/-! # Streams of messages

What a message looks like can depend on what the reader expects. A reader takes one message for
each expectation, for as long as the next message is complete.
-/

namespace FalconLink.Messages

variable {α β κ : Type*}

/-- The messages that are complete, and what follows them. -/
def readAll (read : κ → List α → Option (β × List α)) : List κ → List α → List β × List α
  | [], buf => ([], buf)
  | k :: ks, buf =>
      match read k buf with
      | none => ([], buf)
      | some (message, rest) => (message :: (readAll read ks rest).1, (readAll read ks rest).2)

/-- What follows a complete message does not change it. -/
def Stable (read : κ → List α → Option (β × List α)) : Prop :=
  ∀ ⦃k buf message rest⦄ more, read k buf = some (message, rest) →
    read k (buf ++ more) = some (message, rest ++ more)

variable {read : κ → List α → Option (β × List α)}

/-- More bytes bring more messages. -/
theorem Stable.readAll_append (h : Stable read) (ks : List κ) (buf more : List α) :
    (readAll read ks buf).1 <+: (readAll read ks (buf ++ more)).1 := by
  induction ks generalizing buf with
  | nil => exact List.prefix_rfl
  | cons k ks ih =>
      rw [readAll]
      split
      · exact List.nil_prefix
      · rename_i message rest hread
        rw [readAll, h more hread]
        exact (List.prefix_cons_inj message).mpr (ih rest)

/-- Messages that are read one by one are read in a row. -/
theorem readAll_flatMap {ms : List β} {encode : β → List α} {ks : List κ}
    (h : List.Forall₂ (fun k m => ∀ more, read k (encode m ++ more) = some (m, more)) ks ms)
    (more : List α) : readAll read ks (ms.flatMap encode ++ more) = (ms, more) := by
  induction h with
  | nil => rfl
  | cons hread _ ih =>
      rw [List.flatMap_cons, List.append_assoc, readAll, hread]
      simp only [ih]

/-- A reader that still expects messages has read those that are there. -/
theorem readAll_append_expected {ms : List β} {encode : β → List α} {ks : List κ} (ks' : List κ)
    (hnil : ∀ k, read k [] = none)
    (h : List.Forall₂ (fun k m => ∀ more, read k (encode m ++ more) = some (m, more)) ks ms) :
    readAll read (ks ++ ks') (ms.flatMap encode) = (ms, []) := by
  induction h with
  | nil =>
      cases ks' with
      | nil => rfl
      | cons k ks' => simp [readAll, hnil]
  | cons hread _ ih => simp [readAll, hread, ih]

/-- Messages that are read back in a row are read back one by one. -/
theorem forall_of_readAll {P : κ → β → Prop} (hP : ∀ k buf m rest, read k buf = some (m, rest) → P k m)
    {ks : List κ} {ms : List β} {buf rest : List α} (h : readAll read ks buf = (ms, rest))
    (hlength : ks.length = ms.length) : List.Forall₂ P ks ms := by
  induction ks generalizing buf ms with
  | nil =>
      rw [List.eq_nil_of_length_eq_zero hlength.symm]
      exact .nil
  | cons k ks ih =>
      rw [readAll] at h
      split at h
      · obtain ⟨rfl, -⟩ := Prod.mk.inj h
        cases hlength
      · rename_i message left hread
        obtain ⟨rfl, hrest⟩ := Prod.mk.inj h
        exact .cons (hP k buf message left hread)
          (ih (Prod.ext rfl hrest) (Nat.succ.inj hlength))

end FalconLink.Messages
