import FalconLink.Foundation.Framing

/-! # Texts cut at a delimiter

Every list is a row of delimiter-free pieces, each followed by the delimiter, and a
delimiter-free rest. The delimiters considered do not overlap with themselves, so that
the pieces can be read off from left to right.
-/

namespace FalconLink.Splitting

open Search Framing

variable {α : Type*}

/-- No proper end of the pattern is also a beginning of it. -/
def Unbordered (pat : List α) : Prop :=
  ∀ k < pat.length, 0 < k → ¬pat.drop k <+: pat

instance [DecidableEq α] (pat : List α) : Decidable (Unbordered pat) :=
  inferInstanceAs (Decidable (∀ k < pat.length, 0 < k → ¬pat.drop k <+: pat))

theorem unbordered_of_length {pat : List α} (hone : pat.length = 1) : Unbordered pat := by
  intro k hk hpos
  omega

/-- The pieces, each followed by the delimiter. -/
def terminated (delim : List α) (pieces : List (List α)) : List α :=
  pieces.flatMap (· ++ delim)

@[simp] theorem terminated_nil (delim : List α) : terminated delim [] = [] := rfl

@[simp] theorem terminated_cons (delim piece : List α) (pieces : List (List α)) :
    terminated delim (piece :: pieces) = piece ++ delim ++ terminated delim pieces := rfl

@[simp] theorem terminated_append (delim : List α) (front back : List (List α)) :
    terminated delim (front ++ back) = terminated delim front ++ terminated delim back :=
  List.flatMap_append

theorem length_le_terminated {delim : List α} (hd : delim ≠ []) (pieces : List (List α)) :
    pieces.length ≤ (terminated delim pieces).length := by
  have hpos : 0 < delim.length := List.length_pos_iff.mpr hd
  induction pieces with
  | nil => simp
  | cons piece pieces ih =>
      simp only [terminated_cons, List.length_cons, List.length_append]
      omega

/-- Between the pieces stand delimiters, and one more follows the last piece. -/
theorem intercalate_append_delim (delim : List α) (piece : List α) (pieces : List (List α)) :
    delim.intercalate (piece :: pieces) ++ delim = terminated delim (piece :: pieces) := by
  induction pieces generalizing piece with
  | nil => simp
  | cons next pieces ih =>
      rw [List.intercalate_cons_cons, List.append_assoc, ih, terminated_cons delim piece]

theorem intercalate_concat (delim : List α) (pieces : List (List α)) (rest : List α) :
    delim.intercalate (pieces ++ [rest]) = terminated delim pieces ++ rest := by
  induction pieces with
  | nil => simp
  | cons piece pieces ih =>
      obtain ⟨next, tail, htail⟩ : ∃ next tail, pieces ++ [rest] = next :: tail := by
        cases pieces <;> simp
      rw [List.cons_append, htail, List.intercalate_cons_cons, ← htail, ih, terminated_cons]
      simp only [List.append_assoc]

/-- Behind a piece without the delimiter stands its first occurrence. -/
theorem firstMatch_piece [DecidableEq α] {delim piece : List α} (hd : Unbordered delim)
    (hne : delim ≠ []) (hpiece : ¬delim <:+: piece) (more : List α) :
    firstMatch delim (piece ++ delim ++ more) = some piece.length := by
  have hpos : 0 < delim.length := List.length_pos_iff.mpr hne
  induction piece with
  | nil => exact firstMatch_eq_zero (by simp)
  | cons x piece ih =>
      have hlater : ¬delim <+: x :: piece ++ delim ++ more := by
        intro hocc
        by_cases hlen : delim.length ≤ (x :: piece).length
        · -- the occurrence lies in the piece
          apply hpiece
          rw [List.append_assoc] at hocc
          exact (List.prefix_of_prefix_length_le hocc (List.prefix_append _ _) hlen).isInfix
        · -- the occurrence reaches into the delimiter
          apply hd (x :: piece).length (by omega) (by simp)
          rw [List.append_assoc] at hocc
          have hdrop := hocc.drop (x :: piece).length
          rw [List.drop_left] at hdrop
          refine List.prefix_of_prefix_length_le hdrop (List.prefix_append _ _) ?_
          simp
      have hrest : ¬delim <:+: piece := fun h => hpiece (h.trans (List.suffix_cons x piece).isInfix)
      rw [List.cons_append, List.cons_append] at hlater ⊢
      rw [firstMatch_cons hlater, ih hrest]
      rfl

/-- Around a piece the delimiter begins nowhere but behind it. -/
theorem not_occurs_piece [DecidableEq α] {delim piece : List α} (hd : Unbordered delim)
    (hne : delim ≠ []) (hpiece : ¬delim <:+: piece) (more : List α) {j : ℕ}
    (hj : j < (piece ++ delim).length) (hother : j ≠ piece.length) :
    ¬delim <+: (piece ++ delim ++ more).drop j := by
  by_cases hbefore : j < piece.length
  · exact (firstMatch_spec (firstMatch_piece hd hne hpiece more)).2.2 j hbefore
  · intro hocc
    rw [List.length_append] at hj
    have hdrop : (piece ++ delim ++ more).drop j = delim.drop (j - piece.length) ++ more := by
      rw [List.append_assoc, List.drop_append, List.drop_eq_nil_of_le (by omega), List.nil_append,
        List.drop_append_of_le_length (by omega)]
    rw [hdrop] at hocc
    apply hd (j - piece.length) (by omega) (by omega)
    refine List.prefix_of_prefix_length_le (List.prefix_append _ more) hocc ?_
    simp

/-- Behind the last delimiter stands a rest that does not end in it. -/
theorem not_suffix_of_rest {delim rest : List α} (hd : Unbordered delim) (hne : rest ≠ [])
    (hrest : ¬delim <:+: rest) (pieces : List (List α)) :
    ¬delim <:+ terminated delim pieces ++ rest := by
  intro hends
  rcases List.eq_nil_or_concat pieces with rfl | ⟨front, piece, rfl⟩
  · exact hrest hends.isInfix
  · have htail : delim ++ rest <:+ terminated delim (front.concat piece) ++ rest := by
      simp only [List.concat_eq_append, terminated_append, terminated_cons, terminated_nil,
        List.append_nil, List.append_assoc]
      exact (List.suffix_append _ _).trans (List.suffix_append _ _)
    have hlast : delim <:+ delim ++ rest :=
      List.suffix_of_suffix_length_le hends htail (by simp)
    by_cases hlen : delim.length ≤ rest.length
    · exact hrest (List.suffix_of_suffix_length_le hlast (List.suffix_append _ _) hlen).isInfix
    · -- the occurrence begins in the last delimiter, which would overlap with itself
      have hpos : 0 < rest.length := List.length_pos_iff.mpr hne
      apply hd rest.length (by omega) hpos
      have hdrop := List.suffix_iff_eq_drop.mp hlast
      rw [List.length_append, Nat.add_sub_cancel_left, List.drop_append_of_le_length (by omega)]
        at hdrop
      exact ⟨rest, hdrop.symm⟩

/-- The delimiter stands twice in a row where an empty piece follows. -/
theorem firstMatch_double [DecidableEq α] {delim : List α} (hd : Unbordered delim) (hne : delim ≠ [])
    {pieces : List (List α)} (hfilled : ∀ piece ∈ pieces, piece ≠ [] ∧ ¬delim <:+: piece)
    (more : List α) :
    ∀ {first : List α}, ¬delim <:+: first →
      firstMatch (delim ++ delim) (terminated delim (first :: pieces) ++ delim ++ more) =
        some ((terminated delim (first :: pieces)).length - delim.length) := by
  have honce : ∀ {xs : List α}, delim ++ delim <+: xs → delim <+: xs :=
    fun h => (List.prefix_append delim delim).trans h
  induction pieces with
  | nil =>
      intro first hfirst
      have hskip : ∀ j < first.length,
          ¬delim ++ delim <+: (first ++ (delim ++ (delim ++ more))).drop j := by
        intro j hj hocc
        rw [← List.append_assoc] at hocc
        exact not_occurs_piece hd hne hfirst _ (by simp; omega) (by omega) (honce hocc)
      have hstart : delim ++ delim <+: delim ++ (delim ++ more) := by
        rw [← List.append_assoc]
        exact List.prefix_append _ _
      simp [List.append_assoc, firstMatch_skip first hskip, firstMatch_eq_zero hstart]
  | cons piece pieces ih =>
      intro first hfirst
      obtain ⟨hpiece, hpieces⟩ := List.forall_mem_cons.mp hfilled
      have hlater := ih hpieces hpiece.2
      -- the next piece is not empty, so that no delimiter follows the first one
      have hnext : ¬delim <+: terminated delim (piece :: pieces) ++ delim ++ more := by
        intro hocc
        have hzero := firstMatch_eq_zero hocc
        rw [terminated_cons, List.append_assoc, List.append_assoc (piece ++ delim),
          firstMatch_piece hd hne hpiece.2] at hzero
        exact hpiece.1 (List.length_eq_zero_iff.mp (Option.some.inj hzero))
      have hskip : ∀ j < (first ++ delim).length, ¬delim ++ delim <+:
          (first ++ delim ++ (terminated delim (piece :: pieces) ++ delim ++ more)).drop j := by
        intro j hj hocc
        by_cases hother : j = first.length
        · rw [hother, List.append_assoc, List.drop_left, List.prefix_append_right_inj] at hocc
          exact hnext hocc
        · exact not_occurs_piece hd hne hfirst _ hj hother (honce hocc)
      have hlen : delim.length ≤ (terminated delim (piece :: pieces)).length := by
        simp only [terminated_cons, List.length_append]
        omega
      rw [terminated_cons, List.append_assoc, List.append_assoc (first ++ delim), ← List.append_assoc
        (terminated delim (piece :: pieces)), firstMatch_skip _ hskip, hlater]
      simp only [Option.map_some, List.length_append] at hlen ⊢
      congr 1
      omega

/-- Text that is ended by an empty piece is the first frame. -/
theorem popFrame_double [DecidableEq α] {delim first : List α} (hd : Unbordered delim)
    (hne : delim ≠ []) (hfirst : ¬delim <:+: first) {pieces : List (List α)}
    (hfilled : ∀ piece ∈ pieces, piece ≠ [] ∧ ¬delim <:+: piece) (more : List α) :
    popFrame (delim ++ delim) (terminated delim (first :: pieces) ++ delim ++ more) =
      some (terminated delim (first :: pieces) ++ delim, more) := by
  have hlen : delim.length ≤ (terminated delim (first :: pieces)).length := by
    simp only [terminated_cons, List.length_append]
    omega
  have hend : (terminated delim (first :: pieces)).length - delim.length +
      (delim ++ delim).length = (terminated delim (first :: pieces) ++ delim).length := by
    simp only [List.length_append]
    omega
  rw [popFrame, firstMatch_double hd hne hfilled more hfirst, Option.map_some, hend,
    List.take_left, List.drop_left]

/-- Every list is a row of terminated pieces and a rest. -/
theorem exists_terminated [DecidableEq α] {delim : List α} (hne : delim ≠ []) (xs : List α) :
    ∃ pieces rest, xs = terminated delim pieces ++ rest ∧
      (∀ piece ∈ pieces, ¬delim <:+: piece) ∧ ¬delim <:+: rest := by
  induction xs using drain_induction hne with
  | incomplete buf h => exact ⟨[], buf, rfl, by simp, popFrame_eq_none_iff.mp h⟩
  | frame buf frame rest h ih =>
      obtain ⟨pieces, last, hrest, hpieces, hlast⟩ := ih
      obtain ⟨pos, hpos, hlen, happ⟩ := popFrame_eq_some h
      obtain ⟨hocc, hle, hmin⟩ := firstMatch_spec hpos
      have hbuf : buf = buf.take pos ++ delim ++ rest := by
        obtain ⟨tail, htail⟩ := hocc
        have hframe : rest = tail := by
          have hdrop : buf.drop (pos + delim.length) = rest := by
            rw [← happ, ← hlen, List.drop_left]
          rw [← hdrop, ← List.drop_drop, ← htail, List.drop_left]
        rw [hframe, List.append_assoc, htail, List.take_append_drop]
      have hfree : ¬delim <:+: buf.take pos := by
        rintro ⟨before, after, heq⟩
        have hshort := congrArg List.length heq
        have hdpos : 0 < delim.length := List.length_pos_iff.mpr hne
        simp only [List.length_append, List.length_take] at hshort
        apply hmin before.length (by omega)
        rw [← List.take_append_drop pos buf, ← heq]
        simp [List.append_assoc]
      refine ⟨buf.take pos :: pieces, last, ?_, ?_, hlast⟩
      · rw [terminated_cons, List.append_assoc, ← hrest, ← hbuf]
      · intro piece hmem
        cases List.mem_cons.mp hmem with
        | inl heq => exact heq ▸ hfree
        | inr hmem => exact hpieces piece hmem

end FalconLink.Splitting
